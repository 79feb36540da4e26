/-
# The order of renames

Edits of one range are joined in the order they are asked for, and the order matters
only where a shorthand key and its value are written: once the two are joined, the text
`key: value` is neither that of the key nor that of the value, so a further edit there
is refused, although the same edit is taken before the two are joined.

| question | answer |
| --- | --- |
| When are edits of a range taken in every order? | if they have one text, or if one of them is joined with each of the others to one text that any two others have already (`settled_of_forall_perm`) |
| What is written then? | one text, whatever the order (`Settled.text_eq`) |
| When does a file come out the same whatever the order? | if its ranges are settled, and for a file that is rewritten only then |
| When may a rename be repeated? | anywhere, if all edits of its ranges agree; at the end, if its text is what is written |

Nothing else about a list of renames is order: the files are sorted, the edits of a
file are sorted, and ranges do not look at each other (`normalize_eq_ok_iff`).
-/

import Moniker.Proofs.RangeByRange

namespace Moniker

namespace Edit

variable {file : String} {content : ByteArray} {a b c e o o' odd prev joined : Edit}
  {edits edits' out out' group group' others rest : List Edit} {r : Int × Int} {text : String}

/-! ### Joining in any order -/

theorem join?_of_text_eq (hrange : e.range = prev.range) (htext : e.text = prev.text) :
    join? prev e = some prev := by
  obtain ⟨hstart, hstop⟩ := Prod.mk.inj hrange
  rw [join?, if_pos ⟨hstart, hstop⟩, if_pos htext]

theorem join?_of_text_ne (hrange : e.range = prev.range) (htext : e.text ≠ prev.text) :
    join? prev e = mergeShorthand? prev e := by
  obtain ⟨hstart, hstop⟩ := Prod.mk.inj hrange
  rw [join?, if_pos ⟨hstart, hstop⟩, if_neg htext]

/-- The two sides of a shorthand property are joined to one text, whichever comes first. -/
theorem mergeShorthand?_comm (h : mergeShorthand? a b = some joined) :
    ∃ joined', mergeShorthand? b a = some joined' ∧ joined'.text = joined.text := by
  unfold mergeShorthand? at h ⊢
  split at h
  · next ha hb =>
    rw [ha, hb]
    exact ⟨_, rfl, congrArg text (Option.some.inj h)⟩
  · next ha hb =>
    rw [ha, hb]
    exact ⟨_, rfl, congrArg text (Option.some.inj h)⟩
  · cases h

/-- Only a key and a value are joined. -/
theorem kind_of_mergeShorthand? (h : mergeShorthand? a b = some joined) :
    joined.kind = .plain ∧
      (a.kind = .shorthandKey ∧ b.kind = .shorthandValue ∨
        a.kind = .shorthandValue ∧ b.kind = .shorthandKey) := by
  unfold mergeShorthand? at h
  split at h
  · next ha hb => exact ⟨Option.some.inj h ▸ rfl, .inr ⟨ha, hb⟩⟩
  · next ha hb => exact ⟨Option.some.inj h ▸ rfl, .inl ⟨ha, hb⟩⟩
  · cases h

/-- Of three edits, two are not joined. -/
theorem not_mergeShorthand?_three (hab : ∃ j, mergeShorthand? a b = some j)
    (hac : ∃ j, mergeShorthand? a c = some j) (hbc : ∃ j, mergeShorthand? b c = some j) : False := by
  obtain ⟨_, hab⟩ := hab
  obtain ⟨_, hac⟩ := hac
  obtain ⟨_, hbc⟩ := hbc
  obtain ⟨-, ⟨ha, hb⟩ | ⟨ha, hb⟩⟩ := kind_of_mergeShorthand? hab <;>
    obtain ⟨-, ⟨ha', hc⟩ | ⟨ha', hc⟩⟩ := kind_of_mergeShorthand? hac <;>
    obtain ⟨-, ⟨hb', hc'⟩ | ⟨hb', hc'⟩⟩ := kind_of_mergeShorthand? hbc <;> simp_all

/-- Edits with the text of the first are joined to it. -/
theorem foldlM_join?_of_text_eq (h : ∀ c ∈ rest, c.range = e.range ∧ c.text = e.text) :
    rest.foldlM join? e = some e := by
  induction rest with
  | nil => rfl
  | cons c rest ih =>
    obtain ⟨⟨hrange, htext⟩, hrest⟩ := List.forall_mem_cons.mp h
    rw [List.foldlM_cons, join?_of_text_eq hrange htext]
    exact ih hrest

/-- After a key and its value, only their joined text is taken. -/
theorem text_eq_of_foldlM_join? (hkind : e.kind = .plain) (h : rest.foldlM join? e = some o) :
    o = e ∧ ∀ c ∈ rest, c.text = e.text := by
  induction rest with
  | nil => exact ⟨(Option.some.inj h).symm, fun _ hc => nomatch hc⟩
  | cons c rest ih =>
    rw [List.foldlM_cons] at h
    obtain ⟨joined, hjoin, hrest⟩ := Option.bind_eq_some_iff.mp h
    obtain ⟨-, ⟨htext, rfl⟩ | ⟨-, -, hne, -⟩⟩ := join?_cases hjoin
    · obtain ⟨ho, hall⟩ := ih hrest
      exact ⟨ho, List.forall_mem_cons.mpr ⟨htext, hall⟩⟩
    · exact absurd hkind hne

/-- What edits are joined to is the first, and all have its text, or a key and its value
have been joined. -/
theorem foldlM_join?_cases (h : rest.foldlM join? e = some o) :
    (o = e ∧ ∀ c ∈ rest, c.text = e.text) ∨ o.kind = .plain := by
  induction rest generalizing e with
  | nil => exact .inl ⟨(Option.some.inj h).symm, fun _ hc => nomatch hc⟩
  | cons c rest ih =>
    rw [List.foldlM_cons] at h
    obtain ⟨joined, hjoin, hrest⟩ := Option.bind_eq_some_iff.mp h
    obtain ⟨-, ⟨htext, rfl⟩ | ⟨-, hplain, -⟩⟩ := join?_cases hjoin
    · exact (ih hrest).imp_left fun ⟨ho, hall⟩ => ⟨ho, List.forall_mem_cons.mpr ⟨htext, hall⟩⟩
    · exact .inr ((text_eq_of_foldlM_join? hplain hrest).1 ▸ hplain)

/-! ### Edits that are taken in every order -/

/-- One edit of a range stands against the others: with each of them it is joined to the
text, and if there are several, they have the text already. -/
structure StandsAgainst (odd : Edit) (others : List Edit) (text : String) : Prop where
  some_other : others ≠ []
  differs : ∀ c ∈ others, c.text ≠ odd.text
  joins : ∀ c ∈ others, ∃ joined, mergeShorthand? odd c = some joined ∧ joined.text = text
  several : 2 ≤ others.length → ∀ c ∈ others, c.text = text

/-- The edits of a range are taken in every order. -/
def Settled (group : List Edit) : Prop :=
  (∀ a ∈ group, ∀ b ∈ group, a.text = b.text) ∨
    ∃ odd others text, group.Perm (odd :: others) ∧ StandsAgainst odd others text

theorem Settled.perm (h : Settled group) (hperm : group'.Perm group) : Settled group' := by
  refine h.imp (fun hall a ha b hb => ?_) fun ⟨odd, others, text, hodd, hstands⟩ => ?_
  · exact hall a (hperm.mem_iff.mp ha) b (hperm.mem_iff.mp hb)
  · exact ⟨odd, others, text, hperm.trans hodd, hstands⟩

theorem joinAll?_of_agreed (hrange : ∀ x ∈ group, x.range = r)
    (htext : ∀ x ∈ group, x.text = text) (hne : group ≠ []) :
    ∃ o, joinAll? group = some o ∧ o.text = text := by
  obtain ⟨e, rest, rfl⟩ := List.exists_cons_of_ne_nil hne
  refine ⟨e, foldlM_join?_of_text_eq fun c hc => ⟨?_, ?_⟩, htext e List.mem_cons_self⟩
  · exact (hrange c (List.mem_cons_of_mem _ hc)).trans (hrange e List.mem_cons_self).symm
  · exact (htext c (List.mem_cons_of_mem _ hc)).trans (htext e List.mem_cons_self).symm

theorem StandsAgainst.perm {others' : List Edit} (h : StandsAgainst odd others text)
    (hperm : others'.Perm others) : StandsAgainst odd others' text where
  some_other hnil := h.some_other (hperm.symm.trans (hnil ▸ .refl _)).eq_nil
  differs c hc := h.differs c (hperm.mem_iff.mp hc)
  joins c hc := h.joins c (hperm.mem_iff.mp hc)
  several hlength c hc := h.several (hperm.length_eq ▸ hlength) c (hperm.mem_iff.mp hc)

/-- If there are several, they have the text already. -/
theorem StandsAgainst.text_eq (h : StandsAgainst odd (c :: rest) text) (hx : a ∈ rest) :
    c.text = text ∧ ∀ b ∈ rest, b.text = text := by
  have hlength : 2 ≤ (c :: rest).length := Nat.succ_le_succ (List.length_pos_of_mem hx)
  exact List.forall_mem_cons.mp (h.several hlength)

/-- An odd edit that comes first is joined with the next. -/
theorem StandsAgainst.joinAll?_first (h : StandsAgainst odd (c :: rest) text)
    (hrange : ∀ x ∈ odd :: c :: rest, x.range = r) :
    ∃ o, joinAll? (odd :: c :: rest) = some o ∧ o.text = text := by
  obtain ⟨hodd, hc, hrest⟩ :
      odd.range = r ∧ c.range = r ∧ ∀ x ∈ rest, x.range = r := by simpa using hrange
  obtain ⟨joined, hjoined, htext⟩ := h.joins c List.mem_cons_self
  have hjoin : join? odd c = some joined := by
    rw [join?_of_text_ne (hc.trans hodd.symm) (h.differs c List.mem_cons_self), hjoined]
  refine ⟨joined, ?_, htext⟩
  rw [Edit.joinAll?, List.foldlM_cons, hjoin]
  refine foldlM_join?_of_text_eq fun x hx => ⟨?_, ?_⟩
  · exact (hrest x hx).trans ((range_of_join? hjoin).trans hodd).symm
  · exact ((h.text_eq hx).2 x hx).trans htext.symm

/-- An odd edit that comes later is joined with the first. -/
theorem StandsAgainst.joinAll?_later {before after : List Edit}
    (h : StandsAgainst odd (c :: (before ++ after)) text)
    (hrange : ∀ x ∈ c :: (before ++ odd :: after), x.range = r) :
    ∃ o, joinAll? (c :: (before ++ odd :: after)) = some o ∧ o.text = text := by
  obtain ⟨hc, hbefore, hodd, hafter⟩ : c.range = r ∧ (∀ x ∈ before, x.range = r) ∧
      odd.range = r ∧ ∀ x ∈ after, x.range = r := by
    simpa only [List.forall_mem_cons, List.forall_mem_append] using hrange
  obtain ⟨joined, hjoined, htext⟩ := h.joins c List.mem_cons_self
  obtain ⟨joined', hjoined', htext'⟩ := mergeShorthand?_comm hjoined
  have hjoin : join? c odd = some joined' := by
    rw [join?_of_text_ne (hodd.trans hc.symm) (h.differs c List.mem_cons_self).symm, hjoined']
  have hfirst : before.foldlM join? c = some c := by
    refine foldlM_join?_of_text_eq fun x hx => ⟨(hbefore x hx).trans hc.symm, ?_⟩
    obtain ⟨hctext, hall⟩ := h.text_eq (List.mem_append_left after hx)
    exact (hall x (List.mem_append_left _ hx)).trans hctext.symm
  have hlast : after.foldlM join? joined' = some joined' := by
    refine foldlM_join?_of_text_eq fun x hx => ⟨?_, ?_⟩
    · exact (hafter x hx).trans ((range_of_join? hjoin).trans hc).symm
    · have hx := List.mem_append_right before hx
      exact ((h.text_eq hx).2 x hx).trans (htext'.trans htext).symm
  refine ⟨joined', ?_, htext'.trans htext⟩
  rw [Edit.joinAll?, List.foldlM_append, hfirst, Option.bind_eq_bind, Option.bind_some,
    List.foldlM_cons, hjoin]
  exact hlast

/-- Wherever the odd edit comes, the edits are joined to the text. -/
theorem StandsAgainst.joinAll? (h : StandsAgainst odd others text)
    (hperm : group.Perm (odd :: others)) (hrange : ∀ x ∈ group, x.range = r) :
    ∃ o, joinAll? group = some o ∧ o.text = text := by
  obtain ⟨before, after, rfl⟩ := List.append_of_mem (hperm.mem_iff.mpr List.mem_cons_self)
  have h' : StandsAgainst odd (before ++ after) text :=
    h.perm ((List.perm_cons odd).mp (List.perm_middle.symm.trans hperm))
  cases before with
  | nil =>
    obtain ⟨c, rest, rfl⟩ := List.exists_cons_of_ne_nil h'.some_other
    exact h'.joinAll?_first hrange
  | cons c before => exact h'.joinAll?_later hrange

/-- **Settled edits are joined to one text in every order.** -/
theorem Settled.text_eq (h : Settled group) (hrange : ∀ x ∈ group, x.range = r)
    (hne : group ≠ []) : ∃ text, ∀ group', group'.Perm group →
      ∃ o, joinAll? group' = some o ∧ o.text = text := by
  have hrange' : ∀ {group' : List Edit}, group'.Perm group → ∀ x ∈ group', x.range = r :=
    fun hperm x hx => hrange x (hperm.mem_iff.mp hx)
  obtain hall | ⟨odd, others, text, hperm, hstands⟩ := h
  · obtain ⟨e, he⟩ := List.exists_mem_of_ne_nil _ hne
    refine ⟨e.text, fun group' hperm => joinAll?_of_agreed (hrange' hperm) (fun x hx => ?_) ?_⟩
    · exact hall x (hperm.mem_iff.mp hx) e he
    · exact List.ne_nil_of_mem (hperm.mem_iff.mpr he)
  · exact ⟨text, fun group' h' => hstands.joinAll? (h'.trans hperm) (hrange' h')⟩

/-- Two edits with different texts that come first are a key and a value, and whatever
follows has their joined text. -/
theorem joined_of_joinAll? (hrange : ∀ x ∈ a :: b :: rest, x.range = r) (hne : b.text ≠ a.text)
    (h : ∃ o, joinAll? (a :: b :: rest) = some o) :
    ∃ joined, mergeShorthand? a b = some joined ∧ ∀ c ∈ rest, c.text = joined.text := by
  obtain ⟨o, ho⟩ := h
  have hab : b.range = a.range := (hrange b (by simp)).trans (hrange a (by simp)).symm
  rw [joinAll?, List.foldlM_cons, join?_of_text_ne hab hne] at ho
  obtain ⟨joined, hjoined, hrest⟩ := Option.bind_eq_some_iff.mp ho
  exact ⟨joined, hjoined,
    (text_eq_of_foldlM_join? (kind_of_mergeShorthand? hjoined).1 hrest).2⟩

/-- In a range that is taken in every order, an edit whose text differs from that of
another stands against the rest, if the other has the text the two are joined to or
there is no third. -/
theorem standsAgainst_of_forall_perm (hrange : ∀ x ∈ odd :: c :: rest, x.range = r)
    (h : ∀ group', group'.Perm (odd :: c :: rest) → ∃ o, joinAll? group' = some o)
    (hne : c.text ≠ odd.text) (hjoined : mergeShorthand? odd c = some joined)
    (hrest : ∀ x ∈ rest, x.text = joined.text) (hc : rest ≠ [] → c.text = joined.text) :
    StandsAgainst odd (c :: rest) joined.text := by
  have htexts : rest ≠ [] → ∀ x ∈ c :: rest, x.text = joined.text := fun hne' =>
    List.forall_mem_cons.mpr ⟨hc hne', hrest⟩
  have hdiffers : ∀ x ∈ c :: rest, x.text ≠ odd.text := by
    refine List.forall_mem_cons.mpr ⟨hne, fun x hx => ?_⟩
    rwa [hrest x hx, ← hc (List.ne_nil_of_mem hx)]
  refine ⟨List.cons_ne_nil _ _, hdiffers,
    List.forall_mem_cons.mpr ⟨⟨joined, hjoined, rfl⟩, fun x hx => ?_⟩, fun hlength => ?_⟩
  · obtain ⟨before, after, hsplit⟩ := List.append_of_mem hx
    have hperm : (odd :: x :: c :: (before ++ after)).Perm (odd :: c :: rest) := by
      rw [hsplit]
      exact .cons _ ((List.Perm.swap _ _ _).trans (.cons _ List.perm_middle.symm))
    obtain ⟨joined', hjoined', hothers⟩ := joined_of_joinAll?
      (fun y hy => hrange y (hperm.mem_iff.mp hy)) (hdiffers x (List.mem_cons_of_mem _ hx))
      (h _ hperm)
    refine ⟨joined', hjoined', ?_⟩
    rw [← hothers c List.mem_cons_self, hc (List.ne_nil_of_mem hx)]
  · refine htexts (List.length_pos_iff.mp ?_)
    rw [List.length_cons] at hlength
    omega

/-- Any two edits of a list can come first. -/
theorem exists_perm_pair (ha : a ∈ group) (hb : b ∈ group) (hne : a ≠ b) :
    ∃ rest, group.Perm (a :: b :: rest) := by
  obtain ⟨before, after, rfl⟩ := List.append_of_mem ha
  have hb : b ∈ before ++ after :=
    (List.mem_cons.mp (List.perm_middle.mem_iff.mp hb)).resolve_left hne.symm
  obtain ⟨before', after', hsplit⟩ := List.append_of_mem hb
  refine ⟨before' ++ after', List.perm_middle.trans ?_⟩
  rw [hsplit]
  exact .cons _ List.perm_middle

/-- **Edits of a range are settled if they are taken in every order.** -/
theorem settled_of_forall_perm (hrange : ∀ x ∈ group, x.range = r)
    (h : ∀ group', group'.Perm group → ∃ o, joinAll? group' = some o) : Settled group := by
  by_cases hall : ∀ a ∈ group, ∀ b ∈ group, a.text = b.text
  · exact .inl hall
  right
  push Not at hall
  obtain ⟨a, ha, b, hb, hne⟩ := hall
  obtain ⟨rest, hperm⟩ := exists_perm_pair ha hb fun heq => hne (congrArg Edit.text heq)
  have hall : ∀ group', group'.Perm (a :: b :: rest) → ∃ o, joinAll? group' = some o :=
    fun group' h' => h group' (h'.trans hperm.symm)
  have hrange' : ∀ x ∈ a :: b :: rest, x.range = r := fun x hx => hrange x (hperm.mem_iff.mpr hx)
  have hswap : (b :: a :: rest).Perm (a :: b :: rest) := .swap _ _ _
  obtain ⟨joined, hjoined, hrest⟩ := joined_of_joinAll? hrange' hne.symm (hall _ (.refl _))
  obtain ⟨joined', hjoined', htext⟩ := mergeShorthand?_comm hjoined
  by_cases hbtext : rest ≠ [] → b.text = joined.text
  · exact ⟨a, b :: rest, joined.text, hperm,
      standsAgainst_of_forall_perm hrange' hall hne.symm hjoined hrest hbtext⟩
  by_cases hatext : a.text = joined.text
  · refine ⟨b, a :: rest, joined'.text, hperm.trans hswap.symm,
      standsAgainst_of_forall_perm (fun x hx => hrange' x (hswap.mem_iff.mp hx))
        (fun group' h' => hall group' (h'.trans hswap)) hne hjoined' ?_ ?_⟩
    · rwa [htext]
    · rw [htext]
      exact fun _ => hatext
  · -- A third edit would be joined with both.
    exfalso
    push Not at hbtext
    obtain ⟨hthird, hbtext⟩ := hbtext
    obtain ⟨c, rest', rfl⟩ := List.exists_cons_of_ne_nil hthird
    have hc := hrest c List.mem_cons_self
    have hac : (a :: c :: b :: rest').Perm (a :: b :: c :: rest') := .cons _ (.swap _ _ _)
    have hbc : (b :: c :: a :: rest').Perm (a :: b :: c :: rest') :=
      (List.Perm.cons _ (.swap _ _ _)).trans (.swap _ _ _)
    obtain ⟨_, hja, -⟩ := joined_of_joinAll? (fun x hx => hrange' x (hac.mem_iff.mp hx))
      (by rw [hc]; exact Ne.symm hatext) (hall _ hac)
    obtain ⟨_, hjb, -⟩ := joined_of_joinAll? (fun x hx => hrange' x (hbc.mem_iff.mp hx))
      (by rw [hc]; exact Ne.symm hbtext) (hall _ hbc)
    exact not_mergeShorthand?_three ⟨_, hjoined⟩ ⟨_, hja⟩ ⟨_, hjb⟩

/-- The key of a shorthand property may be written twice before its value, but not again
behind it. -/
example :
    let key : Edit := { start := 6, stop := 7, text := "k: y", kind := .shorthandKey, target := "k" }
    let value : Edit :=
      { start := 6, stop := 7, text := "y: v", kind := .shorthandValue, target := "v" }
    joinAll? [key, key, value] = some { start := 6, stop := 7, text := "k: v" } ∧
      joinAll? [key, value, key] = none := by
  decide

/-! ### Edits of a file -/

/-- All ranges of the edits are settled. -/
def AllSettled (edits : List Edit) : Prop := ∀ r, Settled (onRange edits r)

theorem AllSettled.perm (h : AllSettled edits) (hperm : edits'.Perm edits) : AllSettled edits' :=
  fun r => (h r).perm (hperm.filter _)

/-- What is written of an edit: where, and which text. -/
def bare (e : Edit) : Edit := { start := e.start, stop := e.stop, text := e.text }

theorem bare_eq_iff : a.bare = b.bare ↔ a.range = b.range ∧ a.text = b.text := by
  rw [bare, bare, range, range, Edit.mk.injEq, Prod.mk.injEq]
  tauto

/-- The same edits in another order, or some of them more than once, come to the same if
on every range they are joined to the same text. -/
theorem Resolved.exchange (h : Resolved content edits out) (hmem : ∀ e, e ∈ edits' ↔ e ∈ edits)
    (hjoins : ∀ o ∈ out, ∃ o', Edit.joinAll? (onRange edits' o.range) = some o' ∧
      o'.text = o.text) :
    ∃ out', Resolved content edits' out' ∧ out'.map bare = out.map bare := by
  have hjoined : ∀ o ∈ out, ∃ o', Edit.joinAll? (onRange edits' o.range) = some o' ∧
      o'.range = o.range ∧ o'.text = o.text := by
    intro o ho
    obtain ⟨o', ho', htext⟩ := hjoins o ho
    exact ⟨o', ho', range_of_joinAll? (fun x hx => (mem_onRange.mp hx).2) ho', htext⟩
  choose! image hjoin hrange htext using hjoined
  refine ⟨out.map image, ⟨fun e he => h.fits e ((hmem e).mp he), ?_, ?_, fun e he => ?_⟩, ?_⟩
  · refine List.pairwise_map.mpr (h.apart.imp_of_mem fun ha hb hab => ?_)
    obtain ⟨has, hat⟩ := Prod.mk.inj (hrange _ ha)
    obtain ⟨hbs, hbt⟩ := Prod.mk.inj (hrange _ hb)
    unfold Before at hab ⊢
    rwa [has, hat, hbs, hbt]
  · refine List.forall_mem_map.mpr fun o ho => ?_
    rw [hrange o ho]
    exact hjoin o ho
  · obtain ⟨o, ho, heq⟩ := h.covers e ((hmem e).mp he)
    exact ⟨image o, List.mem_map_of_mem ho, (hrange o ho).trans heq⟩
  · rw [List.map_map]
    exact List.map_congr_left fun o ho => bare_eq_iff.mpr ⟨hrange o ho, htext o ho⟩

/-- **Settled edits come to the same in every order.** -/
theorem normalize_perm (hsettled : AllSettled edits) (hperm : edits'.Perm edits)
    (h : normalize file content edits = .ok out) :
    ∃ out', normalize file content edits' = .ok out' ∧ out'.map bare = out.map bare := by
  have hresolved := normalize_eq_ok_iff.mp h
  obtain ⟨out', hresolved', hbare⟩ := hresolved.exchange (fun _ => hperm.mem_iff) fun o ho => by
    have ho' := hresolved.joined o ho
    obtain ⟨text, htext⟩ := (hsettled o.range).text_eq (fun x hx => (mem_onRange.mp hx).2)
      (ne_nil_of_joinAll? ho')
    obtain ⟨o₁, ho₁, rfl⟩ := htext _ (.refl _)
    obtain ⟨o₂, ho₂, htext₂⟩ := htext _ (hperm.filter _)
    rw [ho₁] at ho'
    exact ⟨o₂, ho₂, htext₂.trans (congrArg Edit.text (Option.some.inj ho'))⟩
  exact ⟨out', normalize_eq_ok_iff.mpr hresolved', hbare⟩

/-- Edits that pass in every order are settled. -/
theorem allSettled_of_normalize (file : String) (content : ByteArray)
    (h : ∀ edits', edits'.Perm edits → ∃ out, normalize file content edits' = .ok out) :
    AllSettled edits := by
  intro r
  by_cases hne : onRange edits r = []
  · rw [hne]
    exact .inl fun _ ha => nomatch ha
  refine settled_of_forall_perm (r := r) (fun x hx => (mem_onRange.mp hx).2) fun group hgroup => ?_
  -- The edits of the range first, in the given order, and then all others.
  have hon : onRange (group ++ edits.filter fun e => !(e.range == r)) r = group := by
    have hothers : onRange (edits.filter fun e => !(e.range == r)) r = [] :=
      onRange_eq_nil fun e he => by simpa using (List.mem_filter.mp he).2
    rw [onRange_append, hothers, List.append_nil]
    exact onRange_of_forall fun e he => (mem_onRange.mp (hgroup.mem_iff.mp he)).2
  have hperm : (group ++ edits.filter fun e => !(e.range == r)).Perm edits :=
    (hgroup.append_right _).trans (List.filter_append_perm _ edits)
  obtain ⟨out, hout⟩ := h _ hperm
  have hresolved := normalize_eq_ok_iff.mp hout
  obtain ⟨e, he⟩ := List.exists_mem_of_ne_nil _ hne
  obtain ⟨hmem, hrange⟩ := mem_onRange.mp he
  obtain ⟨o, ho, hor⟩ := hresolved.covers e (hperm.mem_iff.mpr hmem)
  have hjoined := hresolved.joined o ho
  rw [hor, hrange, hon] at hjoined
  exact ⟨o, hjoined⟩

end Edit

/-- Nothing of the edits but what is written of them goes into a file. -/
theorem FileResult.ofEdits_congr {out out' : List Edit} (h : out'.map Edit.bare = out.map Edit.bare)
    (path : String) (content : ByteArray) : ofEdits path content out' = ofEdits path content out := by
  have hbare : ∀ edits : List Edit,
      ofEdits path content (edits.map Edit.bare) = ofEdits path content edits := by
    intro edits
    have hsplice : Edit.splice content (edits.map Edit.bare) = Edit.splice content edits :=
      List.foldr_map
    have hgrowth : (edits.map Edit.bare).map Edit.growth = edits.map Edit.growth := List.map_map
    rw [ofEdits, ofEdits, List.head?_map, List.getLast?_map, hsplice, hgrowth, List.length_map]
    cases edits.head? <;> cases edits.getLast? <;> rfl
  rw [← hbare, h, hbare]

namespace Rename

open Edit (AllSettled Agreed bare normalize onRange)

variable {sources : String → Option ByteArray} {items items' before after : List RenameItem}
  {file : String} {content : ByteArray} {out : List Edit} {i : RenameItem}

/-! ### The edits of renames -/

theorem editsIn_append (items items' : List RenameItem) (file : String) :
    editsIn (items ++ items') file = editsIn items file ++ editsIn items' file := by
  rw [editsIn, editsOf, List.filter_append, List.flatMap_append, List.filter_append,
    List.map_append]
  rfl

theorem editsIn_cons (i : RenameItem) (items : List RenameItem) (file : String) :
    editsIn (i :: items) file = editsIn [i] file ++ editsIn items file :=
  editsIn_append [i] items file

theorem editsIn_perm (h : items'.Perm items) (file : String) :
    (editsIn items' file).Perm (editsIn items file) :=
  (((h.filter _).flatMap_right _).filter _).map _

theorem mem_editsIn {e : Edit} : e ∈ editsIn items file ↔
    ∃ i ∈ items, i.target ≠ i.oldName ∧
      ∃ l ∈ i.locations, l.file = file ∧ Edit.ofLocation i l = e := by
  simp only [editsIn, editsOf, List.mem_map, List.mem_filter, List.mem_flatMap, bne_iff_ne,
    beq_iff_eq]
  constructor
  · rintro ⟨_, ⟨⟨i, ⟨hi, hne⟩, l, hl, rfl⟩, hfile⟩, rfl⟩
    exact ⟨i, hi, hne, l, hl, hfile, rfl⟩
  · rintro ⟨i, hi, hne, l, hl, hfile, rfl⟩
    exact ⟨_, ⟨⟨i, ⟨hi, hne⟩, l, hl, rfl⟩, hfile⟩, rfl⟩

/-- Edits of a file are asked for in any order by renames of one place each. -/
theorem exists_editsIn_eq {edits : List Edit} (h : ∀ e ∈ edits, e ∈ editsIn items file) :
    ∃ items', editsIn items' file = edits := by
  induction edits with
  | nil => exact ⟨[], rfl⟩
  | cons e edits ih =>
    obtain ⟨he, hrest⟩ := List.forall_mem_cons.mp h
    obtain ⟨items', rfl⟩ := ih hrest
    obtain ⟨i, -, hne, l, -, hfile, rfl⟩ := mem_editsIn.mp he
    refine ⟨{ i with locations := [l] } :: items', ?_⟩
    have hone : editsIn [{ i with locations := [l] }] file = [Edit.ofLocation i l] := by
      rw [editsIn, editsOf, List.filter_cons_of_pos (by simpa using hne)]
      simp [hfile, Edit.ofLocation]
    rw [editsIn_cons, hone]
    rfl

/-! ### The files -/

theorem filesAt_of_normalize (hsource : sources file = some content)
    (hne : editsIn items file ≠ []) (h : normalize file content (editsIn items file) = .ok out) :
    (apply sources items).filesAt file = [FileResult.ofEdits file content out] := by
  have happly : applyFile sources (editsOf items) file =
      .applied (FileResult.ofEdits file content out) := by
    unfold editsIn at h
    simp only [applyFile, hsource, h]
  rw [filesAt_apply, if_pos (touches_iff_editsIn_ne_nil.mpr hne), rewrite?, happly]
  rfl

/-- A file that is there after the renames has passed the checks. -/
theorem normalize_of_filesAt (h : (apply sources items).filesAt file ≠ []) :
    ∃ content out, sources file = some content ∧ editsIn items file ≠ [] ∧
      normalize file content (editsIn items file) = .ok out := by
  have htouches : Touches items file := by
    by_contra hnot
    exact h (untouched hnot).1
  obtain ⟨content, out, hsource, hout, -⟩ | ⟨hnone, -⟩ :=
    @rewritten_or_refused items file sources htouches
  · exact ⟨content, out, hsource, touches_iff_editsIn_ne_nil.mp htouches, hout⟩
  · exact absurd hnone h

/-- A file comes out the same if its edits come to the same. -/
theorem filesAt_congr (h : (apply sources items).filesAt file ≠ [])
    (hne : editsIn items file ≠ [] → editsIn items' file ≠ [])
    (hsame : ∀ content out, sources file = some content →
      normalize file content (editsIn items file) = .ok out →
      ∃ out', normalize file content (editsIn items' file) = .ok out' ∧
        out'.map bare = out.map bare) :
    (apply sources items').filesAt file = (apply sources items).filesAt file := by
  obtain ⟨content, out, hsource, hedits, hout⟩ := normalize_of_filesAt h
  obtain ⟨out', hout', hbare⟩ := hsame content out hsource hout
  rw [filesAt_of_normalize hsource hedits hout, filesAt_of_normalize hsource (hne hedits) hout',
    FileResult.ofEdits_congr hbare]

/-- **A file with settled ranges comes out the same in every order.** -/
theorem filesAt_perm (hsettled : AllSettled (editsIn items file))
    (hperm : (editsIn items' file).Perm (editsIn items file)) :
    (apply sources items').filesAt file = (apply sources items).filesAt file := by
  have hrewritten : ∀ {xs ys : List RenameItem}, (editsIn ys file).Perm (editsIn xs file) →
      AllSettled (editsIn xs file) → (apply sources xs).filesAt file ≠ [] →
      (apply sources ys).filesAt file = (apply sources xs).filesAt file := by
    intro xs ys hys hxs hne
    refine filesAt_congr hne (fun hedits hnil => ?_) fun _ _ _ => Edit.normalize_perm hxs hys
    rw [hnil] at hys
    exact hedits hys.nil_eq.symm
  by_cases h : (apply sources items).filesAt file = []
  · by_contra hne
    rw [h] at hne
    rw [hrewritten hperm.symm (hsettled.perm hperm) hne] at h
    exact hne h
  · exact hrewritten hperm hsettled h

/-- A file that comes out the same in every order has settled ranges, if it comes out. -/
theorem allSettled_of_filesAt (h : (apply sources items).filesAt file ≠ [])
    (hsame : ∀ items', (editsIn items' file).Perm (editsIn items file) →
      (apply sources items').filesAt file = (apply sources items).filesAt file) :
    AllSettled (editsIn items file) := by
  obtain ⟨content, -, hsource, -, -⟩ := normalize_of_filesAt h
  refine Edit.allSettled_of_normalize file content fun edits hperm => ?_
  obtain ⟨items', rfl⟩ := exists_editsIn_eq fun e he => hperm.mem_iff.mp he
  rw [← hsame items' hperm] at h
  obtain ⟨content', out, hsource', -, hout⟩ := normalize_of_filesAt h
  obtain rfl : content = content' := Option.some.inj (hsource.symm.trans hsource')
  exact ⟨out, hout⟩

/-- A rename that is repeated adds only edits that are there. -/
theorem mem_editsIn_repeat (file : String) (hi : i ∈ before ++ after) (e : Edit) :
    e ∈ editsIn (before ++ i :: after) file ↔ e ∈ editsIn (before ++ after) file := by
  rw [mem_editsIn, mem_editsIn]
  constructor
  · rintro ⟨x, hx, hrest⟩
    refine ⟨x, ?_, hrest⟩
    rcases List.mem_append.mp hx with hx | hx
    · exact List.mem_append_left _ hx
    · rcases List.mem_cons.mp hx with rfl | hx
      · exact hi
      · exact List.mem_append_right _ hx
  · rintro ⟨x, hx, hrest⟩
    refine ⟨x, ?_, hrest⟩
    rcases List.mem_append.mp hx with hx | hx
    · exact List.mem_append_left _ hx
    · exact List.mem_append_right _ (List.mem_cons_of_mem _ hx)

theorem mem_editsIn_append_repeat (file : String) (hi : i ∈ items) (e : Edit) :
    e ∈ editsIn (items ++ [i]) file ↔ e ∈ editsIn items file := by
  have hlast : i ∈ items ++ [] := by rwa [List.append_nil]
  have h := mem_editsIn_repeat file hlast e
  rwa [List.append_nil] at h

/-- **A rename whose ranges have one text may be repeated anywhere.** -/
theorem filesAt_repeat (h : (apply sources (before ++ after)).filesAt file ≠ [])
    (hi : i ∈ before ++ after)
    (hagreed : ∀ e ∈ editsIn [i] file, Agreed (editsIn (before ++ after) file) e) :
    (apply sources (before ++ i :: after)).filesAt file =
      (apply sources (before ++ after)).filesAt file := by
  have hmem := mem_editsIn_repeat file hi
  refine filesAt_congr h (fun hedits => ?_) fun content out _ hout => ?_
  · obtain ⟨e, he⟩ := List.exists_mem_of_ne_nil _ hedits
    exact List.ne_nil_of_mem ((hmem e).mpr he)
  have hresolved := Edit.normalize_eq_ok_iff.mp hout
  suffices hjoins : ∀ o ∈ out,
      ∃ o', Edit.joinAll? (onRange (editsIn (before ++ i :: after) file) o.range) = some o' ∧
        o'.text = o.text by
    obtain ⟨out', hresolved', hbare⟩ := hresolved.exchange hmem hjoins
    exact ⟨out', Edit.normalize_eq_ok_iff.mpr hresolved', hbare⟩
  intro o ho
  have hjoined := hresolved.joined o ho
  have hsplit : onRange (editsIn (before ++ i :: after) file) o.range =
      onRange (editsIn before file) o.range ++ onRange (editsIn [i] file) o.range ++
        onRange (editsIn after file) o.range := by
    rw [editsIn_append, editsIn_cons, Edit.onRange_append, Edit.onRange_append,
      List.append_assoc]
  by_cases hnone : onRange (editsIn [i] file) o.range = []
  · refine ⟨o, ?_, rfl⟩
    rw [hsplit, hnone, List.append_nil, ← Edit.onRange_append, ← editsIn_append]
    exact hjoined
  · -- An edit of the rename is on the range, and all others have its text.
    obtain ⟨e, he⟩ := List.exists_mem_of_ne_nil _ hnone
    obtain ⟨hmemOne, hrange⟩ := Edit.mem_onRange.mp he
    have htext : ∀ x ∈ onRange (editsIn (before ++ after) file) o.range, x.text = e.text :=
      fun x hx => hagreed e hmemOne x (Edit.mem_onRange.mp hx).1
        ((Edit.mem_onRange.mp hx).2.trans hrange.symm)
    have hgroup : ∀ x, x ∈ onRange (editsIn (before ++ i :: after) file) o.range →
        x ∈ onRange (editsIn (before ++ after) file) o.range := fun x hx =>
      Edit.mem_onRange.mpr ((Edit.mem_onRange.mp hx).imp_left (hmem x).mp)
    obtain ⟨o₁, ho₁, htext₁⟩ := Edit.joinAll?_of_agreed
      (fun x hx => (Edit.mem_onRange.mp hx).2) htext (Edit.ne_nil_of_joinAll? hjoined)
    obtain ⟨o₂, ho₂, htext₂⟩ := Edit.joinAll?_of_agreed (r := o.range)
      (fun x hx => (Edit.mem_onRange.mp hx).2) (fun x hx => htext x (hgroup x hx))
      (by rw [hsplit]; simp [hnone])
    rw [ho₁] at hjoined
    obtain rfl : o₁ = o := Option.some.inj hjoined
    exact ⟨o₂, ho₂, htext₂.trans htext₁.symm⟩

/-- The edits of a file when a rename is asked for once more at the end. -/
theorem joinAll?_append_repeat (hresolved : Edit.Resolved content (editsIn items file) out)
    {o : Edit} (ho : o ∈ out) :
    Edit.joinAll? (onRange (editsIn (items ++ [i]) file) o.range) =
      (onRange (editsIn [i] file) o.range).foldlM Edit.join? o := by
  have hjoined := hresolved.joined o ho
  rw [editsIn_append, Edit.onRange_append,
    Edit.joinAll?_append (Edit.ne_nil_of_joinAll? hjoined), hjoined, Option.bind_some]

/-- If the file is still rewritten, the texts of the repeated rename are what is written. -/
theorem text_eq_of_append_repeat (hsource : sources file = some content) (hi : i ∈ items)
    (hout : normalize file content (editsIn items file) = .ok out)
    (hne : (apply sources (items ++ [i])).filesAt file ≠ []) :
    ∀ e ∈ editsIn [i] file, ∀ o ∈ out, o.range = e.range → e.text = o.text := by
  intro e he o ho hrange
  obtain ⟨content', out', hsource', -, hout'⟩ := normalize_of_filesAt hne
  obtain rfl : content = content' := Option.some.inj (hsource.symm.trans hsource')
  have hresolved := Edit.normalize_eq_ok_iff.mp hout
  have hresolved' := Edit.normalize_eq_ok_iff.mp hout'
  have hmem := mem_editsIn_append_repeat file hi e
  have hlast : e ∈ editsIn (items ++ [i]) file := by
    rw [editsIn_append]
    exact List.mem_append_right _ he
  obtain ⟨o', ho', hrange'⟩ := hresolved'.covers e hlast
  have hjoined' := hresolved'.joined o' ho'
  rw [hrange', ← hrange, joinAll?_append_repeat hresolved ho] at hjoined'
  have hjoined := hresolved.joined o ho
  obtain ⟨first, rest, hsplit⟩ := List.exists_cons_of_ne_nil (Edit.ne_nil_of_joinAll? hjoined)
  rw [hsplit] at hjoined
  obtain ⟨rfl, hall⟩ | hplain := Edit.foldlM_join?_cases hjoined
  · have hon : e ∈ onRange (editsIn items file) o.range :=
      Edit.mem_onRange.mpr ⟨hmem.mp hlast, hrange.symm⟩
    rw [hsplit] at hon
    rcases List.mem_cons.mp hon with rfl | hon
    · rfl
    · exact hall e hon
  · exact (Edit.text_eq_of_foldlM_join? hplain hjoined').2 e
      (Edit.mem_onRange.mpr ⟨he, hrange.symm⟩)

/-- **A rename whose texts are what is written may be repeated at the end.** -/
theorem filesAt_append_repeat (hi : i ∈ items) (h : (apply sources items).filesAt file ≠ [])
    (htext : ∀ content out, sources file = some content →
      normalize file content (editsIn items file) = .ok out →
        ∀ e ∈ editsIn [i] file, ∀ o ∈ out, o.range = e.range → e.text = o.text) :
    (apply sources (items ++ [i])).filesAt file = (apply sources items).filesAt file := by
  have hmem := mem_editsIn_append_repeat file hi
  refine filesAt_congr h (fun hedits => ?_) fun content out hsource hout => ?_
  · obtain ⟨e, he⟩ := List.exists_mem_of_ne_nil _ hedits
    exact List.ne_nil_of_mem ((hmem e).mpr he)
  have hresolved := Edit.normalize_eq_ok_iff.mp hout
  obtain ⟨out', hresolved', hbare⟩ := hresolved.exchange hmem fun o ho => by
    refine ⟨o, ?_, rfl⟩
    rw [joinAll?_append_repeat hresolved ho]
    refine Edit.foldlM_join?_of_text_eq fun e he => ?_
    obtain ⟨hone, hrange⟩ := Edit.mem_onRange.mp he
    exact ⟨hrange, htext content out hsource hout e hone o ho hrange.symm⟩
  exact ⟨out', Edit.normalize_eq_ok_iff.mpr hresolved', hbare⟩

/-! ### The order of renames -/

theorem paths_perm (h : items'.Perm items) : paths items' = paths items := by
  have hnodup : ∀ xs : List RenameItem, (paths xs).Nodup := fun xs =>
    (paths_pairwise xs).imp ne_of_lt
  have hperm : (paths items').Perm (paths items) :=
    (List.perm_ext_iff_of_nodup (hnodup _) (hnodup _)).mpr fun file => by
      have hedits := editsIn_perm h file
      rw [mem_paths, mem_paths, touches_iff_editsIn_ne_nil, touches_iff_editsIn_ne_nil]
      exact not_congr ⟨fun hnil => (hnil ▸ hedits).nil_eq.symm,
        fun hnil => (hnil ▸ hedits).eq_nil⟩
  exact hperm.eq_of_pairwise (fun _ _ _ _ hab hba => absurd hab (lt_asymm hba))
    (paths_pairwise _) (paths_pairwise _)

theorem files_perm (hsettled : ∀ file, AllSettled (editsIn items file))
    (hperm : items'.Perm items) : (apply sources items').files = (apply sources items).files := by
  rw [files_apply, files_apply, paths_perm hperm]
  refine List.filterMap_congr fun file hfile => ?_
  have h : (apply sources items').filesAt file = (apply sources items).filesAt file :=
    filesAt_perm (hsettled file) (editsIn_perm hperm file)
  have htouches : Touches items' file := mem_paths.mp (paths_perm hperm ▸ hfile)
  rw [filesAt_apply, filesAt_apply, if_pos htouches, if_pos (mem_paths.mp hfile)] at h
  simpa only [Option.head?_toList] using congrArg List.head? h

/-- How far the files that renames give do not depend on the order of the renames. -/
structure OrderFree (sources : String → Option ByteArray) (items : List RenameItem)
    (r : RenameResult) : Prop where
  /-- If the edits of every range are settled, all files are the same in every order. -/
  files : (∀ file, AllSettled (editsIn items file)) →
    ∀ items', items'.Perm items → (apply sources items').files = r.files
  /-- A file that is rewritten is the same in every order of its edits just if its ranges
  are settled. -/
  settled : ∀ file, r.filesAt file ≠ [] → (AllSettled (editsIn items file) ↔
    ∀ items', (editsIn items' file).Perm (editsIn items file) →
      (apply sources items').filesAt file = r.filesAt file)
  /-- A rename is repeated anywhere without consequence for a file in which all edits of its
  ranges have one text. -/
  repeated : ∀ file, r.filesAt file ≠ [] → ∀ i ∈ items,
    (∀ e ∈ editsIn [i] file, Agreed (editsIn items file) e) →
      ∀ before after, before ++ after = items →
        (apply sources (before ++ i :: after)).filesAt file = r.filesAt file
  /-- A rename is repeated at the end without consequence for a file just if its texts are
  what is written; otherwise the file is not rewritten. -/
  appended : ∀ file content out, sources file = some content → editsIn items file ≠ [] →
    normalize file content (editsIn items file) = .ok out → ∀ i ∈ items,
      (apply sources (items ++ [i])).filesAt file =
        if ∀ e ∈ editsIn [i] file, ∀ o ∈ out, o.range = e.range → e.text = o.text
          then r.filesAt file else []

/-- **The order of renames matters only where a shorthand key and its value are joined.** -/
theorem orderFree_apply (sources : String → Option ByteArray) (items : List RenameItem) :
    OrderFree sources items (apply sources items) where
  files hsettled _ hperm := files_perm hsettled hperm
  settled file h :=
    ⟨fun hsettled _ hperm => filesAt_perm hsettled hperm, allSettled_of_filesAt h⟩
  repeated file h i hi hagreed before after hsplit := by
    subst hsplit
    exact filesAt_repeat h hi hagreed
  appended file content out hsource hedits hout i hi := by
    have hfiles := filesAt_of_normalize hsource hedits hout
    have hne : (apply sources items).filesAt file ≠ [] := by
      rw [hfiles]
      exact List.cons_ne_nil _ _
    split
    · next htext =>
      refine filesAt_append_repeat hi hne fun content' out' hsource' hout' => ?_
      obtain rfl : content = content' := Option.some.inj (hsource.symm.trans hsource')
      obtain rfl : out = out' := Except.ok.inj (hout.symm.trans hout')
      exact htext
    · next htext =>
      by_contra hnil
      exact htext (text_eq_of_append_repeat hsource hi hout hnil)

end Rename
end Moniker
