/-
# Log lines read back

The attributes of a line are read one after the other: a blank, a key up to the next equals
sign, and a value, which is quoted text or goes on to the next blank.  As long as the keys hold
no equals sign, that gives back the texts that a logger and a record say, each with the dotted
path of the groups around it (`Logger.readsBack_attributeSection`).

What is written of an attribute depends on nothing but the groups that are open where it
is given (`LogValue.writtenAll_eq`).  So it makes no difference whether a logger or a record
has it.
-/

import Moniker.Log.Line
import Moniker.Proofs.Pieces
import Moniker.Proofs.Quoting

namespace Moniker

namespace LogValue

/-! ### What attributes say -/

mutual

/-- The texts in a value, each with the keys that lead to it; those of `path` lead to the
value. -/
def contents (path : List String) : LogValue → List (List String × String)
  | .text s => [(path, s)]
  | .group attributes => contentsAll path attributes
  | _ => []

/-- The texts in attributes, each with the keys that lead to it. -/
def contentsAll (path : List String) : List LogAttribute → List (List String × String)
  | [] => []
  | (key, v) :: rest => contents (path ++ [key]) v ++ contentsAll path rest

end

/-- Can the key be told from the value behind it? -/
def IsKey (key : String) : Prop := key ≠ "" ∧ '=' ∉ key.toList

/-- The attribute is a text, or a group of such attributes, under a key. -/
inductive Textual : LogAttribute → Prop
  | text {key s : String} : IsKey key → Textual (key, .text s)
  | group {key : String} {attributes : List LogAttribute} : IsKey key →
      (∀ a ∈ attributes, Textual a) → Textual (key, .group attributes)

end LogValue

namespace Logger

/-- The texts that a logger and attributes given with a record say, each with the keys that
lead to it: first those of the groups that are open where it is given. -/
def said : List String → Logger → List LogAttribute → List (List String × String)
  | groups, [], attributes => LogValue.contentsAll groups attributes
  | groups, .group name :: rest, attributes =>
    said (if name = "" then groups else groups ++ [name]) rest attributes
  | groups, .attach given :: rest, attributes =>
    LogValue.contentsAll groups given ++ said groups rest attributes

/-- A step of a logger that opens a group whose name is like a key or empty, or gives textual
attributes. -/
inductive Textual : LogStep → Prop
  | group {name : String} : '=' ∉ name.toList → Textual (.group name)
  | attach {given : List LogAttribute} : (∀ a ∈ given, LogValue.Textual a) → Textual (.attach given)

/-! ### Reading -/

/-- Reads a value: a quoted text, or what goes on to the next blank. -/
def readValue? : List Char → Option (List Char × List Char)
  | [] => some ([], [])
  | c :: cs =>
    if c = '"' then Text.readText? cs
    else some ((c :: cs).takeWhile (· ≠ ' '), (c :: cs).dropWhile (· ≠ ' '))

theorem length_le_of_readValue? {cs value rest : List Char}
    (h : readValue? cs = some (value, rest)) : rest.length ≤ cs.length := by
  unfold readValue? at h
  split at h
  · obtain ⟨-, rfl⟩ := Prod.mk.inj (Option.some.inj h)
    exact Nat.le_refl _
  · split at h
    · exact Nat.le_of_lt (Nat.lt_succ_of_lt (Text.length_lt_of_readText? h))
    · obtain ⟨-, rfl⟩ := Prod.mk.inj (Option.some.inj h)
      exact (List.dropWhile_suffix _).length_le

/-- Reads an attribute: a blank, a key up to the next equals sign, and a value. -/
def readAttribute? : List Char → Option ((String × String) × List Char)
  | [] => none
  | c :: cs =>
    if c = ' ' then
      match cs.dropWhile (· ≠ '=') with
      | [] => none
      | _ :: behind => (readValue? behind).map fun (value, rest) =>
        ((String.ofList (cs.takeWhile (· ≠ '=')), String.ofList value), rest)
    else none

theorem length_lt_of_readAttribute? {cs rest : List Char} {a : String × String}
    (h : readAttribute? cs = some (a, rest)) : rest.length < cs.length := by
  unfold readAttribute? at h
  split at h
  · cases h
  · next c cs =>
    have hdrop := (List.dropWhile_suffix (l := cs) (· ≠ '=')).length_le
    split at h
    · split at h
      · cases h
      · next hbehind =>
        obtain ⟨⟨value, more⟩, hvalue, heq⟩ := Option.map_eq_some_iff.mp h
        obtain ⟨-, rfl⟩ := Prod.mk.inj heq
        have hle := length_le_of_readValue? hvalue
        rw [hbehind, List.length_cons] at hdrop
        rw [List.length_cons]
        omega
    · cases h

/-- Reads attributes one after the other. -/
def readAttributes? (cs : List Char) : Option (List (String × String)) :=
  if cs = [] then some []
  else
    match h : readAttribute? cs with
    | none => none
    | some (a, rest) =>
      have := length_lt_of_readAttribute? h
      (readAttributes? rest).map (a :: ·)
termination_by cs.length

theorem readAttributes?_eq_map {cs rest : List Char} {a : String × String}
    (h : readAttribute? cs = some (a, rest)) :
    readAttributes? cs = (readAttributes? rest).map (a :: ·) := by
  have hne : cs ≠ [] := by
    rintro rfl
    exact nomatch h
  rw [readAttributes?, if_neg hne]
  split
  · next hnone => exact nomatch h.symm.trans hnone
  · next a' rest' hsome =>
    obtain ⟨rfl, rfl⟩ := Prod.mk.inj (Option.some.inj (h.symm.trans hsome))
    rfl

/-- Reads the part of a line that holds attributes. -/
def readSection? (s : String) : Option (List (String × String)) :=
  match s.toList with
  | [] => some []
  | ' ' :: '|' :: cs => readAttributes? cs
  | _ => none

theorem readSection?_bar (s : String) : readSection? (" |" ++ s) = readAttributes? s.toList := by
  rw [readSection?, String.toList_append]
  rfl

/-! ### Reading what is written -/

/-- A text under a key, as it is written. -/
def entry (key s : String) : String := " " ++ key ++ "=" ++ LogValue.lineText s

variable {key s : String} {rest : List Char} {pairs : List (String × String)}

/-- A text that is not quoted is not empty, has no blanks and does not begin with a quote. -/
theorem of_needsQuotes (h : LogValue.needsQuotes s = false) :
    s.toList ≠ [] ∧ ∀ c ∈ s.toList, c ≠ ' ' ∧ c ≠ '"' := by
  simp only [LogValue.needsQuotes, Bool.or_eq_false_iff, decide_eq_false_iff_not,
    List.any_eq_false, decide_eq_true_eq, Bool.or_eq_true, not_or] at h
  obtain ⟨hne, hall⟩ := h
  refine ⟨fun hnil => hne (String.toList_injective hnil), fun c hc => ?_⟩
  obtain ⟨⟨⟨⟨⟨hblank, -⟩, hquote⟩, -⟩, -⟩, -⟩ := hall c hc
  exact ⟨hblank, hquote⟩

/-- What all belongs to a run is the run, if what stands behind does not begin with more. -/
theorem span_append {p : Char → Bool} {w : List Char} (hw : ∀ c ∈ w, p c = true)
    (hrest : ∀ c, rest.head? = some c → p c = false) :
    (w ++ rest).takeWhile p = w ∧ (w ++ rest).dropWhile p = rest := by
  rw [List.takeWhile_append_of_pos hw, List.dropWhile_append_of_pos hw]
  cases rest with
  | nil => exact ⟨List.append_nil w, rfl⟩
  | cons c rest =>
    have hc : ¬ p c = true := Bool.eq_false_iff.mp (hrest c rfl)
    rw [List.takeWhile_cons_of_neg hc, List.dropWhile_cons_of_neg hc]
    exact ⟨List.append_nil w, rfl⟩

/-- **A value is read as it is written.** -/
theorem readValue?_lineText (hrest : rest = [] ∨ rest.head? = some ' ') (s : String) :
    readValue? ((LogValue.lineText s).toList ++ rest) = some (s.toList, rest) := by
  unfold LogValue.lineText
  split
  · obtain ⟨cs, hcs, hread⟩ := Text.readText?_quote s rest
    rw [hcs, readValue?, if_pos rfl, hread]
  · next hbare =>
    obtain ⟨hne, hall⟩ := of_needsQuotes (Bool.eq_false_iff.mpr hbare)
    obtain ⟨c, cs, hcs⟩ := List.exists_cons_of_ne_nil hne
    rw [hcs] at hall ⊢
    have hblanks : ∀ d ∈ c :: cs, decide (d ≠ ' ') = true :=
      fun d hd => decide_eq_true (hall d hd).1
    have hend : ∀ d, rest.head? = some d → decide (d ≠ ' ') = false := by
      intro d hd
      rcases hrest with rfl | hhead
      · cases hd
      · rw [Option.some.inj (hd.symm.trans hhead)]
        rfl
    obtain ⟨htake, hdrop⟩ := span_append hblanks hend
    rw [List.cons_append, readValue?, if_neg (hall c List.mem_cons_self).2, ← List.cons_append,
      htake, hdrop]

theorem readAttribute?_entry (hkey : '=' ∉ key.toList)
    (hrest : rest = [] ∨ rest.head? = some ' ') (s : String) :
    readAttribute? ((entry key s).toList ++ rest) = some ((key, s), rest) := by
  have hwritten : (entry key s).toList ++ rest =
      ' ' :: (key.toList ++ '=' :: ((LogValue.lineText s).toList ++ rest)) := by
    simp [entry]
  have hall : ∀ c ∈ key.toList, decide (c ≠ '=') = true := fun c hc =>
    decide_eq_true fun heq => hkey (heq ▸ hc)
  have hend : ∀ c, ('=' :: ((LogValue.lineText s).toList ++ rest)).head? = some c →
      decide (c ≠ '=') = false := by
    rintro c ⟨⟩
    rfl
  obtain ⟨htake, hdrop⟩ := span_append hall hend
  rw [hwritten, readAttribute?, if_pos rfl, htake, hdrop]
  dsimp only
  rw [readValue?_lineText hrest, Option.map_some, String.ofList_toList, String.ofList_toList]

/-- **Attributes are read as they are written,** if no key holds an equals sign. -/
theorem readAttributes?_join (h : ∀ p ∈ pairs, '=' ∉ p.1.toList) :
    readAttributes? (String.join (pairs.map fun p => entry p.1 p.2)).toList = some pairs := by
  induction pairs with
  | nil =>
    rw [readAttributes?]
    rfl
  | cons p pairs ih =>
    obtain ⟨hp, hpairs⟩ := List.forall_mem_cons.mp h
    have hrest : (String.join (pairs.map fun p => entry p.1 p.2)).toList = [] ∨
        (String.join (pairs.map fun p => entry p.1 p.2)).toList.head? = some ' ' := by
      cases pairs with
      | nil => exact .inl rfl
      | cons q pairs => exact .inr (by simp [entry])
    rw [List.map_cons, String.join_cons, String.toList_append,
      readAttributes?_eq_map (readAttribute?_entry hp hrest p.2), ih hpairs, Option.map_some]

end Logger

/-! ### What is written -/

/-- The keys of a path, each with a dot behind it. -/
def qualifierOf (path : List String) : String := String.join (path.map (· ++ "."))

/-- A text with the keys that lead to it, as it is written. -/
def entryOf (p : List String × String) : String := Logger.entry (Text.join "." p.1) p.2

variable {path : List String} {key name : String} {attributes given : List LogAttribute}

theorem qualifierOf_append (path : List String) (key : String) :
    qualifierOf (path ++ [key]) = qualifierOf path ++ key ++ "." := by
  rw [qualifierOf, List.map_append, String.join_append, List.map_singleton, String.join_cons,
    String.join_nil, String.append_empty, String.append_assoc]
  rfl

/-- A qualified key is the keys on its path with dots between them. -/
theorem qualifierOf_append_key (path : List String) (key : String) :
    qualifierOf path ++ key = Text.join "." (path ++ [key]) := by
  induction path with
  | nil => simp [qualifierOf, Text.join]
  | cons first path ih =>
    obtain ⟨next, more, hmore⟩ :=
      List.exists_cons_of_ne_nil (List.append_ne_nil_of_right_ne_nil path (List.cons_ne_nil key []))
    have hjoin : Text.join "." (first :: (path ++ [key])) =
        first ++ "." ++ Text.join "." (path ++ [key]) := by
      rw [hmore, Text.join, String.intercalate_cons_cons]
      rfl
    rw [List.cons_append, hjoin, ← ih, qualifierOf, List.map_cons, String.join_cons,
      String.append_assoc]
    rfl

namespace LogValue

/-- If each of some attributes is written as what it says, so are they one after the other. -/
theorem writtenAll_of (h : ∀ a ∈ attributes, ∀ path, written (qualifierOf path) a.1 a.2 =
    String.join ((contents (path ++ [a.1]) a.2).map entryOf)) (path : List String) :
    writtenAll (qualifierOf path) attributes =
      String.join ((contentsAll path attributes).map entryOf) := by
  induction attributes with
  | nil => simp [writtenAll, contentsAll]
  | cons a attributes ih =>
    obtain ⟨ha, hrest⟩ := List.forall_mem_cons.mp h
    rw [writtenAll, contentsAll, ha path, ih hrest, List.map_append, String.join_append]

theorem written_eq {a : LogAttribute} (h : Textual a) (path : List String) :
    written (qualifierOf path) a.1 a.2 =
      String.join ((contents (path ++ [a.1]) a.2).map entryOf) := by
  induction h generalizing path with
  | @text key s hkey =>
    have hwritten : written (qualifierOf path) key (.text s) =
        " " ++ qualifierOf path ++ key ++ "=" ++ lineText s := by
      rw [written, if_neg hkey.1, onLine]
      exact nofun
    rw [hwritten, contents, List.map_singleton, String.join_cons, String.join_nil,
      String.append_empty, entryOf, Logger.entry, ← qualifierOf_append_key]
    simp only [String.append_assoc]
  | @group key attributes hkey _ ih =>
    rw [written, if_neg hkey.1, ← qualifierOf_append, contents]
    exact writtenAll_of ih (path ++ [key])

/-- **What is written of attributes is what they say,** under the groups that are open. -/
theorem writtenAll_eq (h : ∀ a ∈ attributes, Textual a) (path : List String) :
    writtenAll (qualifierOf path) attributes =
      String.join ((contentsAll path attributes).map entryOf) :=
  writtenAll_of (fun a ha => written_eq (h a ha)) path

theorem writtenAll_append (qualifier : String) (as bs : List LogAttribute) :
    writtenAll qualifier (as ++ bs) = writtenAll qualifier as ++ writtenAll qualifier bs := by
  induction as with
  | nil => rw [List.nil_append, writtenAll, String.empty_append]
  | cons a as ih => rw [List.cons_append, writtenAll, ih, writtenAll, String.append_assoc]

theorem equals_not_mem_of_contentsAll
    (h : ∀ a ∈ attributes, ∀ path, (∀ k ∈ path, '=' ∉ k.toList) →
      ∀ p ∈ contents (path ++ [a.1]) a.2, ∀ k ∈ p.1, '=' ∉ k.toList)
    (hpath : ∀ k ∈ path, '=' ∉ k.toList) :
    ∀ p ∈ contentsAll path attributes, ∀ k ∈ p.1, '=' ∉ k.toList := by
  induction attributes with
  | nil =>
    rw [contentsAll]
    exact fun _ hp => nomatch hp
  | cons a attributes ih =>
    obtain ⟨ha, hrest⟩ := List.forall_mem_cons.mp h
    rw [contentsAll]
    exact List.forall_mem_append.mpr ⟨ha path hpath, ih hrest⟩

/-- The keys that lead to a text are those that lead to the attribute, and keys in it. -/
theorem equals_not_mem_of_contents {a : LogAttribute} (h : Textual a)
    (hpath : ∀ k ∈ path, '=' ∉ k.toList) :
    ∀ p ∈ contents (path ++ [a.1]) a.2, ∀ k ∈ p.1, '=' ∉ k.toList := by
  induction h generalizing path with
  | @text key s hkey =>
    rw [contents]
    intro p hp
    rw [List.mem_singleton.mp hp]
    exact List.forall_mem_append.mpr ⟨hpath, List.forall_mem_singleton.mpr hkey.2⟩
  | @group key attributes hkey _ ih =>
    rw [contents]
    exact equals_not_mem_of_contentsAll (fun a ha path hpath => ih a ha hpath)
      (List.forall_mem_append.mpr ⟨hpath, List.forall_mem_singleton.mpr hkey.2⟩)

end LogValue

namespace Logger

variable {l : Logger} {groups : List String}

/-- **What a logger adds to a line is what it says,** with what a record says behind it. -/
theorem written_foldl {s : LineScope} (hs : s.qualifier = qualifierOf groups)
    (hl : ∀ step ∈ l, Textual step) (h : ∀ a ∈ attributes, LogValue.Textual a) :
    (l.foldl LineScope.step s).written ++
        LogValue.writtenAll (l.foldl LineScope.step s).qualifier attributes =
      s.written ++ String.join ((said groups l attributes).map entryOf) := by
  induction l generalizing s groups with
  | nil =>
    rw [List.foldl_nil, hs, said, LogValue.writtenAll_eq h]
  | cons step l ih =>
    obtain ⟨hstep, hrest⟩ := List.forall_mem_cons.mp hl
    rw [List.foldl_cons]
    cases hstep with
    | @group name hname =>
      rw [said, LineScope.step]
      split
      · exact ih hs hrest
      · refine ih ?_ hrest
        rw [qualifierOf_append, hs]
    | @attach given hgiven =>
      rw [said, LineScope.step, List.map_append, String.join_append, ← String.append_assoc,
        ← LogValue.writtenAll_eq hgiven, ← hs]
      exact ih hs hrest

theorem equals_not_mem_of_said (hl : ∀ step ∈ l, Textual step)
    (h : ∀ a ∈ attributes, LogValue.Textual a) (hgroups : ∀ k ∈ groups, '=' ∉ k.toList) :
    ∀ p ∈ said groups l attributes, ∀ k ∈ p.1, '=' ∉ k.toList := by
  induction l generalizing groups with
  | nil =>
    rw [said]
    exact LogValue.equals_not_mem_of_contentsAll
      (fun a ha _ hpath => LogValue.equals_not_mem_of_contents (h a ha) hpath) hgroups
  | cons step l ih =>
    obtain ⟨hstep, hrest⟩ := List.forall_mem_cons.mp hl
    cases hstep with
    | @group name hname =>
      rw [said]
      split
      · exact ih hrest hgroups
      · exact ih hrest (List.forall_mem_append.mpr ⟨hgroups, List.forall_mem_singleton.mpr hname⟩)
    | @attach given hgiven =>
      rw [said]
      exact List.forall_mem_append.mpr ⟨LogValue.equals_not_mem_of_contentsAll
        (fun a ha _ hpath => LogValue.equals_not_mem_of_contents (hgiven a ha) hpath) hgroups,
        ih hrest hgroups⟩

/-- The part of a line that holds attributes is read as what a logger and a record say. -/
theorem readSection?_attributeSection {r : LogRecord} (hl : ∀ step ∈ l, Textual step)
    (h : ∀ a ∈ r.attributes, LogValue.Textual a) :
    readSection? (l.attributeSection r) =
      some ((said [] l r.attributes).map fun p => (Text.join "." p.1, p.2)) := by
  have hkeys : ∀ q ∈ (said [] l r.attributes).map fun p => (Text.join "." p.1, p.2),
      '=' ∉ q.1.toList := by
    intro q hq hmem
    obtain ⟨p, hp, rfl⟩ := List.mem_map.mp hq
    rcases Text.mem_join hmem with hdot | ⟨k, hk, heq⟩
    · exact absurd hdot (by decide)
    · exact equals_not_mem_of_said hl h (by simp) p hp k hk heq
  have hread : readAttributes? (String.join ((said [] l r.attributes).map entryOf)).toList =
      some ((said [] l r.attributes).map fun p => (Text.join "." p.1, p.2)) := by
    have h := readAttributes?_join hkeys
    rwa [List.map_map] at h
  have hnone : ({} : LineScope).qualifier = qualifierOf [] := String.join_nil.symm
  have hwritten : l.lineScope.written ++
      LogValue.writtenAll l.lineScope.qualifier r.attributes =
        String.join ((said [] l r.attributes).map entryOf) := by
    rw [lineScope, written_foldl hnone hl h, String.empty_append]
  unfold attributeSection
  dsimp only
  rw [hwritten]
  split
  · next hempty =>
    rw [hempty, String.toList_empty, readAttributes?, if_pos rfl] at hread
    exact hread
  · exact (readSection?_bar _).trans hread

/-- **Attributes of a logger and those of a record are written alike.** -/
theorem line_with (l : Logger) (given : List LogAttribute) (timed : Bool) (r : LogRecord) :
    (l.with given).line timed r = l.line timed { r with attributes := given ++ r.attributes } := by
  have hscope : (l.with given).lineScope = l.lineScope.step (.attach given) := by
    rw [lineScope, Logger.with, List.foldl_append]
    rfl
  have hsection : (l.with given).attributeSection r =
      l.attributeSection { r with attributes := given ++ r.attributes } := by
    unfold attributeSection
    rw [hscope, LineScope.step]
    dsimp only
    rw [LogValue.writtenAll_append, String.append_assoc]
  rw [line, line, hsection]

/-- **Attributes on a line are read back.**  What stands on a line behind the message is read
as the texts that the logger and the record say, each under the dotted path of the groups that
were open where it was given; and it makes no difference on a line whether attributes were
given to the logger before or come with the record. -/
theorem readsBack_attributeSection :
    (∀ (l : Logger) (r : LogRecord), (∀ step ∈ l, Textual step) →
      (∀ a ∈ r.attributes, LogValue.Textual a) →
        (∀ timed, ∃ front, l.line timed r = front ++ r.message ++ l.attributeSection r ++ "\n") ∧
        readSection? (l.attributeSection r) =
          some ((said [] l r.attributes).map fun p => (Text.join "." p.1, p.2))) ∧
      ∀ (l : Logger) given timed (r : LogRecord),
        (l.with given).line timed r = l.line timed { r with attributes := given ++ r.attributes } :=
  ⟨fun _ _ hl h => ⟨fun _ => ⟨_, rfl⟩, readSection?_attributeSection hl h⟩, line_with⟩

/-- Attributes given before a group is opened and after, a group among them, and values that
have to be quoted. -/
def nestedLogger : Logger :=
  [.attach [("a", .text "x=y")], .group "g",
    .attach [("b", .group [("c", .text "two words"), ("d", .text "")])], .group "", .group "h"]

/-- A record whose attribute holds a quote and a backslash. -/
def quotedRecord : LogRecord :=
  { level := .info, message := "done", attributes := [("k", .text "\"\\")] }

/-- What the two say is read off the line that they make. -/
theorem readsBack_attributeSection_nested :
    (∀ step ∈ nestedLogger, Textual step) ∧
      (∀ a ∈ quotedRecord.attributes, LogValue.Textual a) ∧
      nestedLogger.attributeSection quotedRecord =
        " | a=\"x=y\" g.b.c=\"two words\" g.b.d=\"\" g.h.k=\"\\\"\\\\\"" ∧
      readSection? " | a=\"x=y\" g.b.c=\"two words\" g.b.d=\"\" g.h.k=\"\\\"\\\\\"" =
        some [("a", "x=y"), ("g.b.c", "two words"), ("g.b.d", ""), ("g.h.k", "\"\\")] := by
  have hkey : ∀ key, key ≠ "" ∧ '=' ∉ key.toList → ∀ s, LogValue.Textual (key, .text s) :=
    fun key h s => .text h
  have hlogger : ∀ step ∈ nestedLogger, Textual step := by
    have hinner : ∀ a ∈ [("c", LogValue.text "two words"), ("d", .text "")], LogValue.Textual a :=
      List.forall_mem_cons.mpr ⟨hkey "c" (by decide) _,
        List.forall_mem_singleton.mpr (hkey "d" (by decide) _)⟩
    simp only [nestedLogger, List.forall_mem_cons]
    have hgroup : LogValue.Textual ("b", .group [("c", .text "two words"), ("d", .text "")]) :=
      .group ⟨by decide, by decide⟩ hinner
    exact ⟨.attach (List.forall_mem_singleton.mpr (hkey "a" (by decide) _)), .group (by decide),
      .attach (List.forall_mem_singleton.mpr hgroup), .group (by decide), .group (by decide), nofun⟩
  have hrecord : ∀ a ∈ quotedRecord.attributes, LogValue.Textual a :=
    List.forall_mem_singleton.mpr (hkey "k" (by decide) _)
  have hsection : nestedLogger.attributeSection quotedRecord =
      " | a=\"x=y\" g.b.c=\"two words\" g.b.d=\"\" g.h.k=\"\\\"\\\\\"" := by cbv
  refine ⟨hlogger, hrecord, hsection, ?_⟩
  have h := (readsBack_attributeSection.1 nestedLogger quotedRecord hlogger hrecord).2
  rw [hsection] at h
  rw [h]
  rfl

end Logger
end Moniker
