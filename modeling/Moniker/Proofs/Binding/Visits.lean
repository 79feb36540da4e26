/-
# Every rule keeps to its subtree

The rules for the kinds of nodes are written over a visit of the nodes below.  If
that visit keeps to the subtree it is given, so does each rule, and `visitWithin` then
does by induction on the number of levels (`visitWithin_keeps`).
-/

import Moniker.Proofs.Binding.Declare

namespace Moniker
namespace Binding

variable {src : Source} {visit : Visit} {site : Site} {r n : NodeId} {s : ScopeId}
  {P : Program → Prop}

/-- Visiting a node in a scope of the file keeps to what is below the node. -/
def VisitKeeps (src : Source) (visit : Visit) : Prop :=
  ∀ site n s, Keeps src site n (At src site s) (visit site n s)

/-- Does something with a node, if there is one. -/
abbrev onSome (n? : Option NodeId) (act : NodeId → Bind Unit) : Bind Unit :=
  match n? with
  | none => pure ()
  | some n => act n

theorem Keeps.onSome {n? : Option NodeId} {act : NodeId → Bind Unit}
    (h : ∀ n, n? = some n → Keeps src site r P (act n)) :
    Keeps src site r P (Binding.onSome n? act) := by
  cases n? with
  | none => exact .pure _
  | some n => exact h n rfl

section Parts

variable (hs : src.LaidOut) (hv : VisitKeeps src visit)
  (hat : ∀ p, Known src site r p → P p → At src site s p)

include hs hv hat

theorem visit_keeps (hn : src.Below r n) : Keeps src site r P (visit site n s) := by
  intro l p hk hp
  exact .within hn (hv site n s l p { hk with file := (hn.fileOf_eq hs).trans hk.file }
    (hat p hk hp))

theorem visit?_keeps {n? : Option NodeId} (hn : ∀ n, n? = some n → src.Below r n) :
    Keeps src site r P (visit? visit site n? s) := by
  cases n? with
  | none => exact .pure _
  | some n => exact visit_keeps hs hv hat (hn n rfl)

theorem visitField_keeps {field : String} (hn : src.Below r n) :
    Keeps src site r P (visitField src visit site n field s) :=
  visit?_keeps hs hv hat fun _ h => hn.child? h

theorem visitChildren_keeps [Stable P] (hn : src.Below r n) :
    Keeps src site r P (visitChildren src visit site n s) :=
  .forM fun _ hc => visit_keeps hs hv hat (hn.child (List.mem_filter.mp hc).1)

theorem declarePattern_keeps [Stable P] {traits : Traits}
    (htraits : traits.has .variableDecl = true) (fuel : Nat) :
    ∀ n, src.Below r n → src.HoldsPattern n →
      Keeps src site r P (declarePattern src visit site s traits fuel n) := by
  induction fuel with
  | zero => exact fun _ _ _ => .pure _
  | succ fuel ih =>
    intro n hn hholds
    have hsub : ∀ n? : Option NodeId, (∀ c, n? = some c → src.Below r c ∧ src.HoldsPattern c) →
        Keeps src site r P (onSome n? fun c => do
          let _ ← declarePattern src visit site s traits fuel c) := by
      intro n? h
      exact .onSome fun c hc => .bind (ih c (h c hc).1 (h c hc).2) fun _ => .pure _
    unfold declarePattern
    dsimp only
    split
    iterate 2
      · next hkind =>
        refine .bind (.declare hat hn ?_) fun _ => .pure _
        exact .pattern n hholds (by simp [hkind, Source.bindingNames]) htraits
    · next hkind =>
      have hpart {c : NodeId} (hc : c ∈ src.namedChildren n) : src.HoldsPattern c :=
        .namedChild (by simp [hkind, Source.patternHolders]) hc
      refine .bind (.forM fun c hc => ?_) fun _ => .pure _
      have hplace := hpart hc
      have hc := hn.namedChild hc
      split
      · next hkind =>
        refine .bind (.declare hat hc ?_) fun _ => .pure _
        exact .pattern c hplace (by simp [hkind, Source.bindingNames]) htraits
      · next hkind =>
        have hvalue := hsub (src.child? c "value") fun _ h =>
          ⟨hc.child? h, .child (by simp [hkind, Source.patternHolders]) h⟩
        split
        · next key hkey =>
          split
          · exact .bind (visit_keeps hs hv hat (hc.child? hkey)) fun _ => hvalue
          · exact hvalue
        · exact hvalue
      · next hkind =>
        exact .bind (hsub _ fun _ h =>
          ⟨hc.child? h, .child (by simp [hkind, Source.patternHolders]) h⟩)
          fun _ => visitField_keeps hs hv hat hc
      · next hkind =>
        exact hsub _ fun _ h =>
          ⟨hc.firstNamed? h, .firstNamed (by simp [hkind, Source.patternHolders]) h⟩
      · exact visit_keeps hs hv hat hc
    · next hkind =>
      refine .bind (.forM fun c hc => hsub _ fun _ h => Option.some.inj h ▸ ⟨hn.namedChild hc, ?_⟩)
        fun _ => .pure _
      exact .namedChild (by simp [hkind, Source.patternHolders]) hc
    · next hkind =>
      exact .bind (hsub _ fun _ h =>
        ⟨hn.child? h, .child (by simp [hkind, Source.patternHolders]) h⟩) fun _ =>
        .bind (visitField_keeps hs hv hat hn) fun _ => .pure _
    · next hkind =>
      exact .bind (hsub _ fun _ h =>
        ⟨hn.firstNamed? h, .firstNamed (by simp [hkind, Source.patternHolders]) h⟩) fun _ => .pure _
    · exact .bind (visit_keeps hs hv hat hn) fun _ => .pure _

theorem declarePattern?_keeps [Stable P] {traits : Traits} {n? : Option NodeId}
    (htraits : traits.has .variableDecl = true)
    (hn : ∀ n, n? = some n → src.Below r n ∧ src.HoldsPattern n) :
    Keeps src site r P (declarePattern? src visit site s traits n?) := by
  cases n? with
  | none => exact .pure _
  | some n => exact declarePattern_keeps hs hv hat htraits _ n (hn n rfl).1 (hn n rfl).2

end Parts

/-- A pattern that is just a name declares it. -/
theorem declarePattern_value {traits : Traits} {fuel : Nat} {l : List SymbolId} {p : Program}
    {sym : SymbolId}
    (h : Bind.value (declarePattern src visit site s traits fuel n) (l, p) = some sym) :
    Bind.after (declarePattern src visit site s traits fuel n) (l, p) =
        Bind.after (declare src site s n traits) (l, p) ∧
      sym = Bind.value (declare src site s n traits) (l, p) := by
  cases fuel with
  | zero => exact nomatch h
  | succ fuel =>
    unfold declarePattern at h ⊢
    dsimp only at h ⊢
    split at h
    · exact ⟨rfl, (Option.some.inj h).symm⟩
    · exact ⟨rfl, (Option.some.inj h).symm⟩
    all_goals
      simp only [Bind.value_bind, Bind.value_pure] at h
      exact nomatch h

/-- A constructor parameter that is declared by name may become a property. -/
theorem addParameterProperty_run {file : FileId} {c : Option ScopeId} {l : List SymbolId}
    {p : Program} {cls sym : SymbolId} {isPrivate : Bool} (hinner : Inner sym p)
    (hscope : (p.symbol sym).scope ≠ none) (hpar : (p.symbol sym).has .parameter = true) :
    Run src file c r (l, p) (l, (addParameterProperty cls sym isPrivate).after p) := by
  unfold addParameterProperty
  simp only [Build.after_bind, Build.after_read, Build.value_read]
  have owned : Run src file c r (l, p) (l, (Build.updateSymbol sym fun x =>
      { x with
        traits := (x.traits.insert .property).insertIf isPrivate .softPrivate
        owner := some cls }).after p) := .change (.property p sym cls isPrivate hpar)
  have table := owned.trans (ensureMembers_run cls)
  refine table.trans (.change (.member _ _ _ sym (hinner.grows table.grows) rfl ?_))
  rwa [(table.grows.symbol sym hinner.1).scope]

/-- A parameter that is just a name is declared in the scope of its function, which is
no module. -/
theorem inner_of_parameter {l : List SymbolId} {p : Program} {pattern : NodeId} {sym : SymbolId}
    (hk : Known src site r p) (hkind : OfKind s .function p)
    (h : Bind.value (declarePattern? src visit site s parameterTraits (some pattern)) (l, p) =
      some sym) :
    let q := (Bind.after (declarePattern? src visit site s parameterTraits (some pattern)) (l, p)).2
    Inner sym q ∧ (q.symbol sym).scope ≠ none ∧ (q.symbol sym).has .parameter = true := by
  obtain ⟨hafter, rfl⟩ := declarePattern_value h
  rw [declarePattern?, hafter]
  obtain ⟨hlt, hscope, htraits⟩ :=
    @declare_spec src site pattern s p parameterTraits hk.wellScoped l
  have hgrows := @grows_declare src site pattern s p parameterTraits l
  refine ⟨⟨hlt, fun t ht => ?_⟩, by simp [hscope], htraits.has (by decide)⟩
  have ht : landing p site s parameterTraits = t := Option.some.inj (hscope.symm.trans ht)
  rcases landing_cases p site s parameterTraits with hglobal | ⟨-, hown⟩
  · obtain ⟨hlt, hkind⟩ := Stable.grows hgrows hk.global
    rw [← ht, hglobal, hkind]
    exact ⟨hlt, by decide⟩
  · obtain ⟨hlt, hkind⟩ := Stable.grows hgrows hkind
    rw [← ht, hown (by decide), hkind]
    exact ⟨hlt, by decide⟩

section Functions

variable (hs : src.LaidOut) (hv : VisitKeeps src visit)
  (hat : ∀ p, Known src site r p → P p → At src site s p)

include hs hv hat

/-- Parameters are declared in the scope of their function. -/
theorem visitParameters_keeps [Stable P] {fn params : NodeId}
    (hkind : ∀ p, P p → OfKind s .function p) (hn : src.Below r params)
    (hfield : src.field params = "parameters") :
    Keeps src site r P (visitParameters src visit site fn params s) := by
  refine .forM fun param hparam => ?_
  have hmem : param ∈ src.children params := (List.mem_filter.mp hparam).1
  have hparam := hn.namedChild hparam
  split
  · next hparamKind =>
    have hholder : src.kind param ∈ Source.patternHolders := by
      rcases (by simpa [Source.isKind] using hparamKind :
        src.kind param = "required_parameter" ∨ src.kind param = "optional_parameter")
        with h | h <;> simp [h, Source.patternHolders]
    split
    · exact visitField_keeps hs hv hat hparam
    · next pattern hpattern =>
      split
      · exact visitField_keeps hs hv hat hparam
      · have hrest : Keeps src site r P (do
            visitField src visit site param "type" s
            visitField src visit site param "value" s) :=
          .bind (visitField_keeps hs hv hat hparam) fun _ => visitField_keeps hs hv hat hparam
        refine .bind_of (R := fun sym? p => ∀ sym, sym? = some sym →
            Inner sym p ∧ (p.symbol sym).scope ≠ none ∧ (p.symbol sym).has .parameter = true)
          (declarePattern?_keeps hs hv hat (by decide) fun _ h =>
            Option.some.inj h ▸ ⟨hparam.child? hpattern, .child hholder hpattern⟩)
          (fun l p hk hp sym hsym => inner_of_parameter hk (hkind p hp) hsym) fun sym? => ?_
        dsimp only
        split
        · split
          · refine .bind_first (P := P) ?_ (fun _ h => h.1) fun _ => hrest
            intro l p _ hp
            obtain ⟨hinner, hscope, hpar⟩ := hp.2 _ rfl
            exact addParameterProperty_run hinner hscope hpar
          · exact hrest.weaken fun _ h => h.1
        · exact hrest.weaken fun _ h => h.1
  · exact .bind (declarePattern?_keeps hs hv hat (by decide) fun _ h =>
      Option.some.inj h ▸ ⟨hparam, params, hmem, .inr hfield⟩) fun _ => .pure _

/-- Visits a function and goes on in its scope. -/
theorem visitFunction_bind [Stable P] {g : ScopeId → Bind Unit} (hn : src.Below r n)
    (hkind : src.kind n ∈ Source.functionKinds)
    (hg : ∀ fs, Keeps src site r (fun p => P p ∧ At src site fs p ∧ OfKind fs .function p) (g fs)) :
    Keeps src site r P (visitFunction src visit site n s >>= g) := by
  unfold visitFunction
  rw [bind_assoc]
  refine .openScope hs hat hn fun fs => ?_
  have hout : ∀ p, Known src site r p → P p ∧ At src site fs p ∧ OfKind fs .function p →
      At src site s p := fun p hk h => hat p hk h.1
  have hfs : ∀ p, Known src site r p → P p ∧ At src site fs p ∧ OfKind fs .function p →
      At src site fs p := fun _ _ h => h.2.1
  rw [bind_assoc]
  refine .bind (.forM fun c hc => ?_) fun _ => by rw [pure_bind]; exact hg fs
  have hmem := (List.mem_filter.mp hc).1
  have hc := hn.child hmem
  split
  · split
    · exact visit_keeps hs hv hout hc
    · exact .pure _
  · next hfield => exact visitParameters_keeps hs hv hfs (fun _ h => h.2.2) hc hfield
  · next hfield =>
    exact .bind (.declare hfs hc (.parameter n c hkind hmem hfield (by decide))) fun _ => .pure _
  · split
    · refine .bind (.change fun p _ h => ?_) fun _ => visitChildren_keeps hs hv hfs hc
      exact .markScope p c fs h.2.2.1 hc
    · exact visit_keeps hs hv hfs hc
  · exact visit_keeps hs hv hfs hc

theorem visitFunction_keeps [Stable P] (hn : src.Below r n)
    (hkind : src.kind n ∈ Source.functionKinds) :
    Keeps src site r P (do let _ ← visitFunction src visit site n s) :=
  visitFunction_bind hs hv hat hn hkind fun _ => .pure _

end Functions

theorem addHeritage_keeps {sym : SymbolId} : Keeps src site r P (addHeritage sym n) :=
  .change fun p _ _ => .touch p sym _ fun _ => ⟨rfl, rfl, rfl, rfl, rfl, rfl, rfl, rfl⟩

theorem declareClass_keeps [Stable P] {cs : ScopeId}
    (hat : ∀ p, Known src site r p → P p → At src site s p)
    (hcs : ∀ p, Known src site r p → P p → At src site cs p) (hn : src.Below r n)
    (hkind : src.kind n ∈ Source.classKinds) :
    Keeps src site r P (declareClass src site n s cs) := by
  unfold declareClass
  split
  · next name hname =>
    obtain ⟨hnaming, htrait⟩ := Source.naming_of_classKinds hkind
    refine .declare (fun p hk hp => ?_) (hn.child? hname)
      (.name n name hnaming hname (by rw [htrait]; decide))
    split
    · exact hcs p hk hp
    · exact hat p hk hp
  · refine .change fun p _ _ => .symbol p _ rfl (fun d hd => ?_) rfl
    rw [List.mem_singleton.mp hd]
    exact hn

section Classes

variable (hs : src.LaidOut) (hv : VisitKeeps src visit)
  (hat : ∀ p, Known src site r p → P p → At src site s p)

include hs hv hat

theorem visitHeritage_keeps [Stable P] {sym : SymbolId} (hn : src.Below r n) :
    Keeps src site r P (visitHeritage src visit site sym n s) := by
  refine .forM fun clause hclause => ?_
  have hclause := hn.namedChild hclause
  split
  · refine .forM fun c hc => .bind (visit_keeps hs hv hat (hclause.namedChild hc)) fun _ => ?_
    split
    · exact addHeritage_keeps
    · exact .pure _
  · exact .forM fun c hc =>
      .bind (visit_keeps hs hv hat (hclause.namedChild hc)) fun _ => addHeritage_keeps
  · exact .bind (visit_keeps hs hv hat hclause) fun _ => addHeritage_keeps

theorem declareClassMember_keeps [Stable P] {cls : SymbolId} {member : NodeId}
    {name? : Option NodeId} {traits : Traits}
    (hn : ∀ n, name? = some n → src.Below r n ∧
      (src.kind n ≠ "computed_property_name" → src.MemberName n))
    (htraits : traits.meets Source.lexicalTraits = false) :
    Keeps src site r P (declareClassMember src visit site cls s member name? traits) := by
  unfold declareClassMember
  split
  · exact .pure _
  · next name =>
    obtain ⟨hname, hplace⟩ := hn name rfl
    split
    · exact visit_keeps hs hv hat hname
    · next hkind =>
      have hplace := hplace (by simpa using hkind)
      have hdeclared : ∀ table isStatic isPrivate isHard, Keeps src site r P (do
          let _ ← liftM (declareMember src site.file site.ambient table cls name
            (((traits.insertIf isStatic .static).insertIf isPrivate .softPrivate).insertIf isHard
              .hardPrivate))) := by
        intro table isStatic isPrivate isHard
        refine .bind (.declareMember hname hplace ?_) fun _ => .pure _
        refine Traits.meets_insertIf_eq_false (Traits.meets_insertIf_eq_false
          (Traits.meets_insertIf_eq_false htraits ?_) ?_) ?_ <;> decide
      dsimp only
      split
      · exact .bind (.ensureStatics cls) fun table => hdeclared table _ _ _
      · exact .bind (.ensureMembers cls) fun table => hdeclared table _ _ _

theorem visitClassMember_keeps [Stable P] {cls : SymbolId} {outer body : NodeId}
    (hn : src.Below r n) (hclass : src.kind outer ∈ Source.classKinds)
    (hbody : src.child? outer "body" = some body) (hmem : n ∈ src.children body) :
    Keeps src site r P (visitClassMember src visit site cls s n) := by
  unfold visitClassMember
  have hmember {name : NodeId} {field : String} (hkind : src.kind n ∈ Source.memberKinds)
      (h : src.child? n field = some name) : src.Below r name ∧
        (src.kind name ≠ "computed_property_name" → src.MemberName name) :=
    ⟨hn.child? h, .member n name hkind (Source.mem_children_of_child? h)⟩
  have hmethod {name : NodeId} (hkind : src.kind n = "method_definition")
      (h : src.child? n "name" = some name) : src.Below r name ∧
        (src.kind name ≠ "computed_property_name" → src.MemberName name) :=
    ⟨hn.child? h, .method outer body n name hclass hbody hmem hkind (Source.mem_children_of_child? h)⟩
  have hfield (hkind : src.kind n ∈ Source.memberKinds) : ∀ name,
      (src.child? n "name" <|> src.child? n "property") = some name → src.Below r name ∧
        (src.kind name ≠ "computed_property_name" → src.MemberName name) := by
    intro name h
    cases hc : src.child? n "name" with
    | none => exact @hmember name "property" hkind (by simpa [hc] using h)
    | some name' => exact @hmember name "name" hkind (hc.trans (by simpa [hc] using h))
  have hparts (hname : ∀ name, src.child? n "name" = some name → src.Below r name ∧
      (src.kind name ≠ "computed_property_name" → src.MemberName name))
      (hkind : src.kind n ∈ Source.functionKinds) (isAccessor : Bool) : Keeps src site r P (do
        if !isNamed src n "constructor" then
          declareClassMember src visit site cls s n (src.child? n "name")
            (Traits.of [if isAccessor then .property else .method])
        let _ ← visitFunction src visit site n s) := by
    have hfunction := visitFunction_keeps hs hv hat hn hkind
    dsimp only
    split
    · refine .bind (declareClassMember_keeps hs hv hat hname ?_) fun _ => hfunction
      cases isAccessor <;> decide
    · exact hfunction
  split
  · next hkind => exact hparts (fun _ => hmethod hkind) (by simp [hkind, Source.functionKinds]) _
  iterate 2
    · next hkind =>
      exact hparts (fun _ => hmember (by simp [hkind, Source.memberKinds]))
        (by simp [hkind, Source.functionKinds]) _
  iterate 2
    · next hkind =>
      refine .bind (declareClassMember_keeps hs hv hat
        (hfield (by simp [hkind, Source.memberKinds])) (by decide)) fun _ => ?_
      refine .bind (visitField_keeps hs hv hat hn) fun _ => ?_
      refine .bind (visitField_keeps hs hv hat hn) fun _ => ?_
      exact .forM fun d hd => visit_keeps hs hv hat (hn.childUnder hd)
  · exact visit_keeps hs hv hat hn

theorem visitClass_keeps [Stable P] (hn : src.Below r n)
    (hkind : src.kind n ∈ Source.classKinds) :
    Keeps src site r P (visitClass src visit site n s) := by
  refine .openScope hs hat hn fun cs => ?_
  have hout : ∀ p, Known src site r p → P p ∧ At src site cs p ∧ OfKind cs .ofClass p →
      At src site s p := fun p hk h => hat p hk h.1
  have hcs : ∀ p, Known src site r p → P p ∧ At src site cs p ∧ OfKind cs .ofClass p →
      At src site cs p := fun _ _ h => h.2.1
  refine .bind (declareClass_keeps hout hcs hn hkind) fun cls => ?_
  refine .bind (.ensureMembers cls) fun _ => .bind (.ensureStatics cls) fun _ => ?_
  refine .bind (.change fun p _ _ => .markClass p n cls hn) fun _ => ?_
  refine .bind (visitField_keeps hs hv hcs hn) fun _ => ?_
  have hbody : Keeps src site r (fun p => P p ∧ At src site cs p ∧ OfKind cs .ofClass p) (do
      (src.childrenUnder n "decorator").forM fun d => visit site d s
      onSome (src.child? n "body") fun body =>
        (src.namedChildren body).forM fun member =>
          visitClassMember src visit { site with enclosing := some cls } cls cs member) := by
    refine .bind (.forM fun d hd => visit_keeps hs hv hout (hn.childUnder hd)) fun _ => ?_
    refine .onSome fun body hbody => .forM fun member hm => .enclosed (some cls) ?_
    exact visitClassMember_keeps hs hv (fun _ _ h => h.2.1) ((hn.child? hbody).namedChild hm)
      hkind hbody (List.mem_filter.mp hm).1
  dsimp only
  split
  · next heritage hh =>
    exact .bind (visitHeritage_keeps hs hv hcs (hn.firstOfKind? hh)) fun _ => hbody
  · exact hbody

theorem visitShapeBody_keeps [Stable P] {owner : SymbolId} (hn : src.Below r n) :
    Keeps src site r P (visitShapeBody src visit site n owner s) := by
  refine .bind (.ensureMembers owner) fun table => .forM fun member hm => ?_
  have hm := hn.namedChild hm
  have hdeclared (hkind : src.kind member ∈ Source.memberKinds) :
      ∀ name, src.child? member "name" = some name → src.kind name ≠ "computed_property_name" →
      ∀ t, (Traits.of [t]).meets Source.lexicalTraits = false → Keeps src site r P (do
      let _ ← liftM (declareMember src site.file site.ambient table owner name (Traits.of [t]))) :=
    fun name hname hcomputed _ htraits => .bind (.declareMember (hm.child? hname)
      (.member member name hkind (Source.mem_children_of_child? hname) hcomputed) htraits)
      fun _ => .pure _
  dsimp only
  split
  · next hkind =>
    have hdeclared := hdeclared (by simp [hkind, Source.memberKinds])
    have htype : Keeps src site r P (visitField src visit site member "type" s) :=
      visitField_keeps hs hv hat hm
    split
    · next name hname =>
      split
      · exact .bind (visit_keeps hs hv hat (hm.child? hname)) fun _ => htype
      · next hcomputed =>
        exact .bind (hdeclared name hname (by simpa using hcomputed) .property (by decide))
          fun _ => htype
    · exact htype
  · next hkind =>
    have hdeclared := hdeclared (by simp [hkind, Source.memberKinds])
    have hmethod := visitFunction_keeps hs hv hat hm (by simp [hkind, Source.functionKinds])
    split
    · next name hname =>
      split
      · next hcomputed =>
        exact .bind (hdeclared name hname (by simpa using hcomputed) .method (by decide))
          fun _ => hmethod
      · exact hmethod
    · exact hmethod
  · exact visit_keeps hs hv hat hm

theorem visitInterface_keeps [Stable P] (hn : src.Below r n)
    (hkind : src.kind n = "interface_declaration") :
    Keeps src site r P (visitInterface src visit site n s) := by
  refine .bind (.declare? hat fun _ h =>
    ⟨hn.child? h, .named hkind (by decide) (by decide) h⟩) fun sym? => ?_
  split
  · exact .pure _
  · next sym =>
    refine .bind (.ensureMembers sym) fun _ => .openScope hs hat hn fun is => ?_
    have his : ∀ p, Known src site r p → P p ∧ At src site is p ∧ OfKind is .block p →
        At src site is p := fun _ _ h => h.2.1
    refine .bind (visitField_keeps hs hv his hn) fun _ => ?_
    have hbody : ∀ body, src.child? n "body" = some body →
        Keeps src site r (fun p => P p ∧ At src site is p ∧ OfKind is .block p) (do
          modifyThe Program fun p => p.markShape body sym
          visitShapeBody src visit site body sym is) := by
      intro body hbody
      refine .bind (.change fun p _ _ => .markShape p body sym (hn.child? hbody)) fun _ => ?_
      exact visitShapeBody_keeps hs hv his (hn.child? hbody)
    dsimp only
    split
    · next ext hext =>
      refine .bind (.forM fun t ht => ?_) fun _ => ?_
      · exact .bind (visit_keeps hs hv his ((hn.firstOfKind? hext).namedChild ht))
          fun _ => addHeritage_keeps
      · split
        · next body h => exact hbody body h
        · exact .pure _
    · split
      · next body h => exact hbody body h
      · exact .pure _

theorem visitEnum_keeps [Stable P] (hn : src.Below r n)
    (hkind : src.kind n = "enum_declaration") :
    Keeps src site r P (visitEnum src visit site n s) := by
  refine .bind (.declare? hat fun _ h =>
    ⟨hn.child? h, .named hkind (by decide) (by decide) h⟩) fun sym? => ?_
  split
  · exact .pure _
  · next sym =>
    refine .bind (.ensureMembers sym) fun table => ?_
    have hdeclared : ∀ name, src.Below r name → src.MemberName name → Keeps src site r P (do
        let _ ← liftM
          (declareMember src site.file site.ambient table sym name (Traits.of [.enumMember]))) :=
      fun _ hname hplace => .bind (.declareMember hname hplace (by decide)) fun _ => .pure _
    dsimp only
    split
    · exact .pure _
    · next body hbody =>
      refine .forM fun c hc => ?_
      have hmem := (List.mem_filter.mp hc).1
      have hc := (hn.child? hbody).namedChild hc
      split
      · next hc' => exact hdeclared c hc (.enumerator n body c hkind hbody hmem (.inl hc'))
      · next hc' => exact hdeclared c hc (.enumerator n body c hkind hbody hmem (.inr hc'))
      · next hc' =>
        have hvalue : Keeps src site r P (visitField src visit site c "value" s) :=
          visitField_keeps hs hv hat hc
        split
        · next name hname =>
          exact .bind (hdeclared name (hc.child? hname) (.assigned c name hc' hname)) fun _ => hvalue
        · exact hvalue
      · exact .pure _

end Classes

theorem below_of_headOfName {fuel : Nat} {head : NodeId} {traits : Traits} (hn : src.Below r n)
    (hplace : src.Lexical traits n) (htraits : traits.has .namespaceDecl = true)
    (h : headOfName src fuel n = some head) : src.Below r head ∧ src.Lexical traits head := by
  induction fuel generalizing n with
  | zero => exact Option.some.inj h ▸ ⟨hn, hplace⟩
  | succ fuel ih =>
    unfold headOfName at h
    split at h
    · next hkind =>
      split at h
      · next inner hinner =>
        have hname : src.kind inner ∈ ["identifier", "nested_identifier"] := Source.kind_of_firstOfKind? hinner
        exact ih (hn.firstOfKind? hinner)
          (.head n inner (beq_iff_eq.mp hkind) (List.mem_of_find?_eq_some hinner) hname htraits) h
      · exact nomatch h
    · exact Option.some.inj h ▸ ⟨hn, hplace⟩

/-- An ambient module is opened on first sight. -/
theorem ambientModule_keeps (name : String) (hn : src.Below r n) :
    Keeps src site r P (liftM (ambientModule site n name)) := by
  intro l p hk _
  rw [Bind.after_lift]
  unfold ambientModule
  simp only [Build.after_bind, Build.value_get, Build.after_get]
  split
  · exact .refl
  · refine (Run.change (.scope p .ofModule _ n hk.global.1 hn)).trans ?_
    let symbol : Symbol :=
      { name := name, traits := Traits.of [.moduleItself, .ambient], file := site.file }
    refine (Run.change (.symbol _ symbol rfl (fun _ hd => nomatch hd) rfl)).trans ?_
    exact .change (.ambient _ _ rfl (by simp [Program.addSymbol]))

theorem ambientByName_ambientModule {p : Program} {name : String} :
    ((ambientModule site n name).after p).ambientByName[name]? =
      some ((ambientModule site n name).value p) := by
  unfold ambientModule
  simp only [Build.after_bind, Build.value_bind, Build.value_get, Build.after_get]
  split
  · next m hm => exact hm
  · exact Std.TreeMap.getElem?_insert_self

section Modules

variable (hs : src.LaidOut) (hv : VisitKeeps src visit)
  (hkind : src.kind n ∈ ["module", "internal_module"]) (hn : src.Below r n)

include hs hv hkind hn

theorem visitAmbientModule_keeps [Stable P] {name : String} :
    Keeps src site r P (visitAmbientModule src visit site n name) := by
  refine .bind_of (R := fun m p => ∃ s, Opened m s p) (ambientModule_keeps name hn) ?_ fun m => ?_
  · intro l p hk hp
    have hk := hk.run (ambientModule_keeps (P := P) name hn l p hk hp)
    obtain ⟨hlt, hscope⟩ := hk.ambient ambientByName_ambientModule
    exact ⟨_, hlt, rfl, hscope⟩
  refine .bind_of (R := fun s p => Opened m s p) (.read _) ?_ fun s => ?_
  · intro l p hk hp
    obtain ⟨-, s, hlt, rfl, hscope⟩ := hp
    exact ⟨hlt, rfl, hscope⟩
  refine .weaken (P := fun p => P p ∧ Opened m s p) ?_ fun _ h => ⟨h.1.1, h.2⟩
  refine .bind (.change fun p _ hp => .markScope p n s hp.2.scope_lt hn) fun _ => ?_
  dsimp only
  split
  · exact .pure _
  · next body hbody =>
    have hb := hn.child? hbody
    refine .bind (.change fun p _ hp => .markScope p body s hp.2.scope_lt hb) fun _ => ?_
    refine .forM fun c hc => .inModule ?_ fun _ hp => hp.2
    have hat : ∀ p, WellScoped p → P p ∧ Opened m s p →
        At src { site with module := m, ambient := true } s p :=
      fun p hw hp => .of_ambient hw rfl hp.2.scope_lt
    split
    · exact visit_keeps hs hv (fun p hk => hat p hk.wellScoped) (hb.namedChild hc)
    · have hsec : Secluded src r c :=
        ⟨n, hn, .inr ⟨hkind, body, hbody, Source.Below.refl.namedChild hc⟩⟩
      refine .collect hs hsec ?_ fun found => .forM fun sym _ => .bind (.read _) fun name => ?_
      · exact visit_keeps hs hv (fun p hk => hat p hk.wellScoped) .refl
      · exact .change fun p _ _ => .module p m _ fun _ => .addExport name sym

theorem visitNamespace_keeps [Stable P] (hat : ∀ p, Known src site r p → P p → At src site s p) :
    Keeps src site r P (visitNamespace src visit site n s) := by
  unfold visitNamespace
  split
  · exact .pure _
  · next name hname =>
    split
    · exact visitAmbientModule_keeps hs hv hkind hn
    · next hstring =>
      refine .bind (.declare? hat fun _ h => below_of_headOfName (hn.child? hname)
        (.namespace_ n name hkind hname (by simpa using hstring) (by decide)) (by decide) h)
        fun sym? => ?_
      split
      · exact .pure _
      · next sym =>
        refine .bind (.ensureMembers sym) fun table => .openScope hs hat hn fun ns => ?_
        have hns : ∀ p, P p ∧ At src site ns p ∧ OfKind ns .function p → At src site ns p :=
          fun _ h => h.2.1
        split
        · exact .pure _
        · next body hbody =>
          have hb := hn.child? hbody
          refine .bind (.change fun p _ hp => .markScope p body ns hp.2.2.1 hb) fun _ => ?_
          refine .forM fun c hc => ?_
          dsimp only
          split
          · next decl hdecl =>
            have hdecl : src.Below body decl := by
              split at hdecl
              · exact (Source.Below.refl.namedChild hc).child? hdecl
              · exact absurd hdecl.symm (Option.some_ne_none decl)
            refine .collect hs ⟨n, hn, .inr ⟨hkind, body, hbody, hdecl⟩⟩ ?_ fun found => ?_
            · exact visit_keeps hs hv (fun p _ => hns p) .refl
            · refine .forM fun d hd => .bind_of (R := fun name p => (p.symbol d).name = name)
                (.read _) (fun _ _ _ _ => rfl) fun name => .change fun p _ hp => ?_
              obtain ⟨hp, hname⟩ := hp
              refine .member p table name d ⟨(hp.2 d hd).1, fun t ht => ?_⟩ hname
                (by simp [(hp.2 d hd).2])
              have ht : ns = t := Option.some.inj ((hp.2 d hd).2.symm.trans ht)
              rw [← ht, hp.1.2.2.2]
              exact ⟨hp.1.2.2.1, by decide⟩
          · exact visit_keeps hs hv (fun p _ => hns p) (hb.namedChild hc)

end Modules

theorem visitAmbient_keeps [Stable P] (hs : src.LaidOut) (hv : VisitKeeps src visit)
    (hat : ∀ p, Known src site r p → P p → At src site s p) (hn : src.Below r n) :
    Keeps src site r P (visitAmbient src visit site n s) := by
  unfold visitAmbient
  dsimp only
  split
  · refine .forM fun c hc => ?_
    have hc := hn.namedChild hc
    split
    · refine .bind (.change fun p hk _ => .markScope p c _ hk.global.1 hc) fun _ => .ambient ?_
      exact visitChildren_keeps hs hv (fun p hk _ => .global hk) hc
    · exact .pure _
  · intro l p hk hp
    have hinner : Keeps src { site with ambient := true } r (At src site s)
        (visitChildren src visit { site with ambient := true } n s) :=
      visitChildren_keeps hs hv (fun _ _ h => h.ambient) hn
    exact hinner.ambient l p hk (hat p hk hp)

section Imports

/-- An alias, named in an import statement below the node. -/
structure BoundBelow (src : Source) (r : NodeId) (b : ImportedName) : Prop where
  below : src.Below r b.node
  place : src.AliasName b.node
  trait : b.trait = .importBinding ∨ b.trait = .namespaceImport

theorem boundBelow_of_mem_clauseBindings {b : ImportedName} {clause : NodeId}
    (hclause : src.Below r clause) (hkind : src.kind clause = "import_clause")
    (hn : n ∈ src.children clause) (hb : b ∈ clauseBindings src n) : BoundBelow src r b := by
  have hbelow := hclause.child hn
  unfold clauseBindings at hb
  split at hb
  · rw [List.mem_singleton.mp hb]
    exact ⟨hbelow, ⟨clause, hn, by simp [hkind, Source.aliasHolders]⟩, .inl rfl⟩
  · obtain ⟨spec, hspec, hb⟩ := List.mem_filterMap.mp hb
    have hspec := hbelow.namedChild hspec
    split at hb
    · next hkind =>
      have hholder : src.kind spec ∈ Source.aliasHolders := by
        simp [eq_of_beq hkind, Source.aliasHolders]
      obtain ⟨name, hname, rfl⟩ := Option.map_eq_some_iff.mp hb
      cases halias : src.child? spec "alias" with
      | none => exact ⟨hspec.child? hname, .child hholder hname, .inl rfl⟩
      | some a => exact ⟨hspec.child? halias, .child hholder halias, .inl rfl⟩
    · exact nomatch hb
  · next hkind =>
    obtain ⟨id, hid, rfl⟩ := List.mem_map.mp hb
    have hid := Option.mem_toList.mp hid
    exact ⟨hbelow.firstOfKind? hid, .firstOfKind (by simp [hkind, Source.aliasHolders]) hid, .inr rfl⟩
  · exact nomatch hb

theorem boundBelow_of_mem_importClause {b : ImportedName} (hn : src.Below r n)
    (hb : b ∈ (importClause src n).2) : BoundBelow src r b := by
  unfold importClause at hb
  split at hb
  · next hkind =>
    obtain ⟨c, hc, hb⟩ := List.mem_flatMap.mp hb
    exact boundBelow_of_mem_clauseBindings hn hkind (List.mem_filter.mp hc).1 hb
  · next hkind =>
    split at hb
    · next id hid =>
      rw [List.mem_singleton.mp hb]
      exact ⟨hn.firstOfKind? hid, .firstOfKind (by simp [hkind, Source.aliasHolders]) hid, .inr rfl⟩
    · exact nomatch hb
  · exact nomatch hb

/-- Imports are bound in the scope of the module. -/
theorem visitImport_keeps [Stable P] (hn : src.Below r n) :
    Keeps src site r P (visitImport src site n) := by
  refine .bind_of (R := fun s p => At src site s p) (.read _) (fun _ _ hk _ => hk.module) fun s => ?_
  have hat : ∀ p, Known src site r p → P p ∧ At src site s p → At src site s p := fun _ _ h => h.2
  refine .bind (.foldlM (fun imp clause hclause => ?_) _) fun statement => ?_
  · have hclause := hn.namedChild hclause
    refine .bind (.mapM fun b hb => ?_) fun _ => .pure _
    have hbound := boundBelow_of_mem_importClause hclause hb
    have haliasing : (Traits.of [b.trait]).meets Traits.aliasing = true := by
      rcases hbound.trait with h | h <;> rw [h] <;> decide
    exact .declareImport haliasing hat hbound.below hbound.place
  · exact .change fun p _ _ => .module p site.module _ fun _ => ⟨rfl, rfl, rfl, rfl, fun _ h => h⟩

end Imports

section Exports

theorem export_keeps {name : String} {sym : SymbolId} :
    Keeps src site r P (export_ site name sym) :=
  .change fun p _ _ => .module p site.module _ fun _ => .addExport name sym

theorem exportAll_keeps [Stable P] {syms : List SymbolId} :
    Keeps src site r P (exportAll src site n syms) :=
  .forM fun _ _ => .bind (.read _) fun _ => export_keeps

/-- What an exported declaration introduces is collected apart. -/
theorem exportDeclaration_keeps [Stable P] {decl : NodeId} (hs : src.LaidOut)
    (hv : VisitKeeps src visit) (hat : ∀ p, Known src site r p → P p → At src site s p)
    (hkind : src.kind n = "export_statement") (hn : src.Below r n)
    (hdecl : src.child? n "declaration" = some decl) :
    Keeps src site r P (exportDeclaration src visit site n decl s) := by
  refine .collect hs ⟨n, hn, .inl ⟨hkind, Source.Below.refl.child? hdecl⟩⟩ ?_ fun found => ?_
  · intro l p hk hp
    refine hv _ decl s l p hk (hat p ?_ hp)
    exact { hk with file := (((hn.child? hdecl).fileOf_eq hs).symm).trans hk.file }
  · exact .bind (.read _) fun _ => exportAll_keeps

theorem exportValue_keeps [Stable P] (hs : src.LaidOut) (hv : VisitKeeps src visit)
    (hat : ∀ p, Known src site r p → P p → At src site s p) (hn : src.Below r n) :
    Keeps src site r P (exportValue src visit site n s) := by
  refine .bind (visit_keeps hs hv hat hn) fun _ => .bind (.read _) fun cls? => ?_
  have hexport : ∀ sym, Keeps src site r P (do
      Build.updateSymbol sym fun x => if x.decls.isEmpty then { x with decls := [n] } else x
      export_ site "default" sym) := fun sym =>
    .bind (.change fun p _ _ => .fill p sym n hn) fun _ => export_keeps
  have hnew : ∀ sym : Symbol, sym.scope = none → sym.decls = [] → sym.target = none →
      Keeps src site r P (liftM (Build.newSymbol sym)) := fun sym hscope hdecls htarget =>
    .change fun p _ _ => .symbol p sym hscope (fun d hd => nomatch hdecls ▸ hd) htarget
  dsimp only
  split
  · exact .bind (hnew _ rfl rfl rfl) hexport
  · split
    · exact .bind (.pure _) hexport
    · exact .bind (hnew _ rfl rfl rfl) hexport

/-- A new symbol is exported; its name node declares it. -/
theorem exportAlias_keeps {sym : Symbol} {name : String} (hscope : sym.scope = none)
    (hdecls : sym.decls = [n]) (hn : src.Below r n) (hname : src.Spells n sym.name)
    (halias : sym.isAlias = true) (hplace : src.AliasName n) (htarget : sym.target = none) :
    Keeps src site r P (do
      let id ← Build.newSymbol sym
      Build.setDeclared n id
      export_ site name id) :=
  fun _ p _ _ => (Run.change (.alias_ p sym n hscope hdecls hn hname halias hplace htarget)).trans
    (.change (.module _ site.module _ fun _ => .addExport ..))

theorem exportSpecifier_keeps [Stable P] {source : String} (hn : src.Below r n)
    (hkind : src.kind n = "export_specifier") :
    Keeps src site r P (exportSpecifier src site source s n) := by
  unfold exportSpecifier
  split
  · exact .pure _
  · next name hname =>
    obtain ⟨hdecl, hplace⟩ : src.Below r ((src.child? n "alias").getD name) ∧
        src.AliasName ((src.child? n "alias").getD name) := by
      have hholder : src.kind n ∈ Source.aliasHolders := by simp [hkind, Source.aliasHolders]
      cases halias : src.child? n "alias" with
      | none => exact ⟨hn.child? hname, .child hholder hname⟩
      | some a => exact ⟨hn.child? halias, .child hholder halias⟩
    dsimp only
    by_cases hown : ((src.child? n "alias").getD name != name || source != "") = true
    · simp only [hown, if_true]
      refine exportAlias_keeps rfl rfl hdecl ?_ (Traits.le_insertIf.meets (by decide)) hplace rfl
      dsimp only
      exact Source.spells_unquote _
    · simp only [hown, if_false, Bool.false_eq_true]
      refine .bind (.change fun p _ _ => .symbol p _ rfl (fun d hd => ?_) rfl) fun _ => ?_
      · rw [List.mem_singleton.mp hd]
        exact hdecl
      · exact .bind (.change fun p _ _ => .markSpecifier p name (hn.child? hname))
          fun _ => export_keeps

theorem exportNamespace_keeps {source : String} (hn : src.Below r n)
    (hkind : src.kind n = "namespace_export") :
    Keeps src site r P (exportNamespace src site source n) := by
  unfold exportNamespace
  split
  · exact .pure _
  · next id hid =>
    split
    · refine exportAlias_keeps rfl rfl (hn.firstOfKind? hid) ?_
        (show (Traits.of [.exportAlias, .namespaceImport]).meets Traits.aliasing = true by decide)
        (.firstOfKind (by simp [hkind, Source.aliasHolders]) hid) rfl
      dsimp only
      exact Source.spells_unquote _
    · exact .pure _

theorem visitExport_keeps [Stable P] (hs : src.LaidOut) (hv : VisitKeeps src visit)
    (hat : ∀ p, Known src site r p → P p → At src site s p)
    (hkind : src.kind n = "export_statement") (hn : src.Below r n) :
    Keeps src site r P (visitExport src visit site n s) := by
  unfold visitExport
  split
  · next decl hdecl => exact exportDeclaration_keeps hs hv hat hkind hn hdecl
  · next value _ hvalue => exact exportValue_keeps hs hv hat (hn.child? hvalue)
  · have hlocal : Keeps src site r P (visitChildren src visit site n s) :=
      visitChildren_keeps hs hv hat hn
    refine .bind (.forM fun c hc => ?_) fun _ => ?_
    · have hc := hn.namedChild hc
      split
      · exact .forM fun spec hspec =>
          exportSpecifier_keeps (hc.namedChild (List.mem_filter.mp hspec).1)
            (eq_of_beq (List.mem_filter.mp hspec).2)
      · next hkind => exact exportNamespace_keeps hc hkind
      · exact .pure _
    · dsimp only
      split
      · refine .bind (.change fun p _ _ => .module p site.module _ fun _ =>
          ⟨rfl, rfl, rfl, rfl, fun _ h => h⟩) fun _ => ?_
        split
        · exact hlocal
        · exact .pure _
      · split
        · exact hlocal
        · exact .pure _

end Exports

section Nodes

variable (hs : src.LaidOut) (hv : VisitKeeps src visit)
  (hat : ∀ p, Known src site r p → P p → At src site s p) (hn : src.Below r n)

include hs hv hat hn

theorem visitVariables_keeps [Stable P] :
    Keeps src site r P (visitVariables src visit site n s) := by
  refine .forM fun d hd => ?_
  have hd := hn.namedChild hd
  split
  · next hkind =>
    refine .bind (declarePattern?_keeps hs hv hat (Traits.le_insertIf.has (by decide)) fun _ h =>
      ⟨hd.child? h, .child (by simp [eq_of_beq hkind, Source.patternHolders]) h⟩) fun _ => ?_
    exact .bind (visitField_keeps hs hv hat hd) fun _ => visitField_keeps hs hv hat hd
  · exact visit_keeps hs hv hat hd

theorem visitLoop_keeps [Stable P] : Keeps src site r P (visitLoop src visit site n s) := by
  refine .openScope hs hat hn fun ls => ?_
  have hls : ∀ p, Known src site r p → P p ∧ At src site ls p ∧ OfKind ls .block p →
      At src site ls p := fun _ _ h => h.2.1
  dsimp only
  split
  · next kind hloop =>
    have hkind : src.kind n = "for_in_statement" := by
      split at hloop
      · next h => exact eq_of_beq h
      · exact nomatch hloop
    refine .bind (declarePattern?_keeps hs hv hls (Traits.le_insertIf.has (by decide)) fun _ h =>
      ⟨hn.child? h, .child (by simp [hkind, Source.patternHolders]) h⟩) fun _ => ?_
    exact .forM fun c hc => visit_keeps hs hv hls (hn.child (List.mem_filter.mp hc).1)
  · exact visitChildren_keeps hs hv hls hn

theorem visitIndexSignature_keeps [Stable P] :
    Keeps src site r P (visitIndexSignature src visit site n s) := by
  have hparts : ∀ {Q : Program → Prop} [Stable Q] (is : ScopeId),
      (∀ p, Known src site r p → Q p → At src site is p) →
      Keeps src site r Q ((src.namedChildren n).forM fun c => do
        if src.kind c == "mapped_type_clause" then
          visitField src visit site c "type" is
          visitField src visit site c "alias" is
        else visit site c is) := by
    intro Q _ is his
    refine .forM fun c hc => ?_
    have hc := hn.namedChild hc
    split
    · exact .bind (visitField_keeps hs hv his hc) fun _ => visitField_keeps hs hv his hc
    · exact visit_keeps hs hv his hc
  unfold visitIndexSignature
  dsimp only
  split
  · next clause hclause =>
    refine .openScope hs hat hn fun is => ?_
    have his : ∀ p, Known src site r p → P p ∧ At src site is p ∧ OfKind is .block p →
        At src site is p := fun _ _ h => h.2.1
    have hkind : src.kind clause = "mapped_type_clause" := by
      have := List.find?_some hclause
      simp only [Source.isKind, Bool.and_eq_true, List.contains_cons, List.contains_nil,
        Bool.or_false, beq_iff_eq] at this
      exact this.2
    refine .bind (.declare? his fun _ h =>
      ⟨(hn.firstOfKind? hclause).child? h, .named hkind (by decide) (by decide) h⟩)
      fun _ => ?_
    rw [pure_bind]
    exact hparts is his
  · rw [pure_bind]
    exact hparts s hat

theorem visitObjectType_keeps [Stable P] :
    Keeps src site r P (visitObjectType src visit site n s) := by
  refine .bind (.change fun p _ _ => .symbol p _ rfl (fun d hd => ?_) rfl) fun shape => ?_
  · rw [List.mem_singleton.mp hd]
    exact hn
  refine .bind (.ensureMembers shape) fun _ => ?_
  refine .bind (.change fun p _ _ => .markShape p n shape hn) fun _ => ?_
  exact visitShapeBody_keeps hs hv hat hn

/-- A node whose children are visited in a scope of its own. -/
theorem openScope_visitChildren_keeps [Stable P] {kind : ScopeKind} :
    Keeps src site r P (do
      let bs ← openScope kind s n
      visitChildren src visit site n bs) :=
  .openScope hs hat hn fun _ => visitChildren_keeps hs hv (fun _ _ h => h.2.1) hn

/-- **Every rule keeps to its subtree.** -/
theorem visitNode_keeps [Stable P] : Keeps src site r P (visitNode src visit site n s) := by
  have hname {kind : String} {traits : Traits} (hkind : src.kind n = kind)
      (hnaming : kind ∈ Source.namingKinds)
      (htrait : traits.has (Source.namingTrait kind) = true) : ∀ name,
      src.child? n "name" = some name → src.Below r name ∧ src.Lexical traits name :=
    fun _ h => ⟨hn.child? h, .named hkind hnaming htrait h⟩
  have hfunction := visitFunction_keeps hs hv hat hn
  have hchildren := visitChildren_keeps hs hv hat hn
  unfold visitNode
  split
  · exact visitImport_keeps hn
  · next hkind => exact visitExport_keeps hs hv hat hkind hn
  · exact visitAmbient_keeps hs hv hat hn
  iterate 3
    · next hkind =>
      exact .bind (.declare? hat (hname hkind (by decide) (by decide)))
        fun _ => hfunction (by simp [hkind, Source.functionKinds])
  iterate 4
    · next hkind =>
      exact visitFunction_bind hs hv hat hn (by simp [hkind, Source.functionKinds]) fun fs =>
        .bind (.declare? (fun _ _ h => h.2.1) (hname hkind (by decide) (by decide)))
          fun _ => .pure _
  iterate 3
    · next hkind => exact visitClass_keeps hs hv hat hn (by simp [hkind, Source.classKinds])
  · next hkind => exact visitInterface_keeps hs hv hat hn hkind
  · next hkind =>
    refine .bind (.declare? hat (hname hkind (by decide) (by decide))) fun _ =>
      .openScope hs hat hn fun ts => ?_
    exact .bind (visitField_keeps hs hv (fun _ _ h => h.2.1) hn) fun _ =>
      visitField_keeps hs hv (fun _ _ h => h.2.1) hn
  · next hkind => exact visitEnum_keeps hs hv hat hn hkind
  iterate 2 exact visitVariables_keeps hs hv hat hn
  iterate 3 exact openScope_visitChildren_keeps hs hv hat hn
  iterate 2 exact visitLoop_keeps hs hv hat hn
  · next hkind =>
    refine .openScope hs hat hn fun cs => ?_
    have hcs : ∀ p, Known src site r p → P p ∧ At src site cs p ∧ OfKind cs .block p →
        At src site cs p := fun _ _ h => h.2.1
    refine .bind (declarePattern?_keeps hs hv hcs (by decide) fun _ h =>
      ⟨hn.child? h, .child (by simp [hkind, Source.patternHolders]) h⟩) fun _ => ?_
    exact .bind (visitField_keeps hs hv hcs hn) fun _ => visitField_keeps hs hv hcs hn
  iterate 2
    · next hkind => exact visitNamespace_keeps hs hv (by simp [hkind]) hn hat
  · exact visitObjectType_keeps hs hv hat hn
  · refine .forM fun tp htp => ?_
    have hkind := eq_of_beq (List.mem_filter.mp htp).2
    have htp := hn.namedChild (List.mem_filter.mp htp).1
    refine .bind (.declare? hat fun _ h =>
      ⟨htp.child? h, .named hkind (by decide) (by decide) h⟩) fun _ => ?_
    exact .bind (visitField_keeps hs hv hat htp) fun _ => visitField_keeps hs hv hat htp
  iterate 5
    · next hkind => exact hfunction (by simp [hkind, Source.functionKinds])
  · exact visitIndexSignature_keeps hs hv hat hn
  · next hkind =>
    exact .bind (.declare? hat fun name h =>
      ⟨hn.firstOfKind? h, .inferred n name hkind (List.mem_of_find?_eq_some h)
        (List.mem_singleton.mp (Source.kind_of_firstOfKind? h)) (by decide)⟩)
      fun _ => hchildren
  · exact hchildren

end Nodes

/-- **A visit of any depth keeps to its subtree.** -/
theorem visitWithin_keeps (hs : src.LaidOut) (fuel : Nat) : VisitKeeps src (visitWithin src fuel) := by
  induction fuel with
  | zero => exact fun _ _ _ => .pure _
  | succ fuel ih => exact fun _ _ _ => visitNode_keeps hs ih (fun _ _ h => h) .refl

end Binding
end Moniker
