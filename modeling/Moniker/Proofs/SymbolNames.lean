/-
# Symbol names written and read back

A descriptor is a path of steps, each a name with a mark behind it that says what it leads to.
A name that holds marks stands between backticks.  Read from the front with an eye on the
backticks, a name is read over, whatever it holds (`SymbolName.afterLast_name`), so the mark
behind the last step is found; and the fields in front of the descriptor end at blanks
(`SymbolName.parsesBack_parse`).
-/

import Moniker.Index.SymbolName
import Moniker.Proofs.Pieces

namespace Moniker

/-- What a step of a descriptor leads to. -/
inductive DescriptorKind where
  | space
  | type
  | term
  | method
deriving DecidableEq

/-- What stands behind a name of that kind. -/
def DescriptorKind.mark : DescriptorKind → List Char
  | space => ['/']
  | type => ['#']
  | term => ['.']
  | method => ['(', ')', '.']

/-- The characters that a name holds only between backticks. -/
def markChars : List Char := ['/', '#', '.', '(', ')', SymbolName.tick]

/-- A name as it stands in a descriptor. -/
inductive DescriptorName where
  | plain (s : String) (ne : s ≠ "") (bare : ∀ c ∈ s.toList, c ∉ markChars)
  | quoted (s : String) (bare : SymbolName.tick ∉ s.toList)

namespace DescriptorName

/-- The name itself. -/
def text : DescriptorName → String
  | plain s _ _ => s
  | quoted s _ => s

/-- The name as it is written. -/
def written : DescriptorName → List Char
  | plain s _ _ => s.toList
  | quoted s _ => SymbolName.tick :: (s.toList ++ [SymbolName.tick])

end DescriptorName

/-- A step of a descriptor. -/
structure Descriptor where
  kind : DescriptorKind
  name : DescriptorName

namespace Descriptor

/-- A step as it is written. -/
def written (d : Descriptor) : List Char := d.name.written ++ d.kind.mark

/-- The text of a path. -/
def render (path : List Descriptor) : String := String.ofList (path.flatMap written)

end Descriptor

namespace SymbolName

variable {mark : Char → Bool} {w rest : List Char} {after : Option (List Char)} {s : String}

/-! ### Reading over names -/

/-- What holds no backtick is read over, between backticks as it is, and elsewhere if it holds
no mark. -/
theorem afterLast_append {quoted : Bool}
    (h : ∀ c ∈ w, c ≠ tick ∧ (quoted = true ∨ mark c = false)) :
    afterLast mark (w ++ rest) quoted after =
      afterLast mark rest quoted (after.map (w.reverse ++ ·)) := by
  induction w generalizing after with
  | nil => simp
  | cons c w ih =>
    obtain ⟨⟨hc, hmark⟩, hw⟩ := List.forall_mem_cons.mp h
    have hplain : ¬ (!quoted && mark c) = true := by
      rcases hmark with rfl | hmark
      · exact Bool.false_ne_true
      · rw [hmark, Bool.and_false]
        exact Bool.false_ne_true
    rw [List.cons_append, afterLast, if_neg hc, if_neg hplain, ih hw, Option.map_map]
    congr 2
    funext l
    simp

/-- **A name is read over,** whatever stands between its backticks. -/
theorem afterLast_name (hmark : ∀ c, mark c = true → c ∈ markChars) (n : DescriptorName) :
    afterLast mark (n.written ++ rest) false after =
      afterLast mark rest false (after.map (n.written.reverse ++ ·)) := by
  cases n with
  | plain s ne bare =>
    refine afterLast_append fun c hc => ⟨?_, .inr ?_⟩
    · rintro rfl
      exact bare _ hc (by decide)
    · exact Bool.eq_false_iff.mpr fun h => bare c hc (hmark c h)
  | quoted s bare =>
    have hinside : ∀ c ∈ s.toList, c ≠ tick ∧ (true = true ∨ mark c = false) :=
      fun c hc => ⟨fun heq => bare (heq ▸ hc), .inl rfl⟩
    rw [DescriptorName.written, List.cons_append, List.append_assoc, afterLast, if_pos rfl,
      Bool.not_false, afterLast_append hinside, List.singleton_append, afterLast, if_pos rfl,
      Bool.not_true, Option.map_map, Option.map_map]
    congr 2
    funext l
    simp

/-! ### Members -/

theorem mem_markChars_of_sharp (c : Char) (h : decide (c = '#') = true) : c ∈ markChars := by
  rw [of_decide_eq_true h]
  decide

theorem afterLast_sharp (k : DescriptorKind) :
    afterLast (· = '#') (k.mark ++ rest) false after =
      afterLast (· = '#') rest false
        (if k = .type then some [] else after.map (k.mark.reverse ++ ·)) := by
  cases k with
  | space | type | term => rfl
  | method => cases after <;> rfl

/-- **Behind a path** something follows the last sharp if a type is on the path. -/
theorem exists_afterLast_path (path : List Descriptor) (rest : List Char)
    (after : Option (List Char)) :
    ∃ after', afterLast (· = '#') (path.flatMap Descriptor.written ++ rest) false after =
        afterLast (· = '#') rest false after' ∧
      (after'.isSome = true ↔ after.isSome = true ∨ ∃ d ∈ path, d.kind = .type) := by
  induction path generalizing after with
  | nil => exact ⟨after, rfl, by simp⟩
  | cons d path ih =>
    obtain ⟨after', hread, hsome⟩ := ih (if d.kind = .type then some []
      else (after.map (d.name.written.reverse ++ ·)).map (d.kind.mark.reverse ++ ·))
    refine ⟨after', ?_, hsome.trans ?_⟩
    · rw [List.flatMap_cons, Descriptor.written, List.append_assoc, List.append_assoc,
        afterLast_name mem_markChars_of_sharp, afterLast_sharp, hread]
    · by_cases htype : d.kind = .type
      · simp [htype]
      · simp [htype]

theorem isMember_iff_exists (n : SymbolName) : n.isMember = true ↔
    ∃ l, afterLast (· = '#') n.descriptor.toList false none = some l ∧ l ≠ [] := by
  unfold isMember
  split
  · next c l heq => simp [heq]
  · next hno =>
    simp only [Bool.false_eq_true, false_iff, not_exists, not_and, not_not]
    intro l hl
    cases l with
    | nil => rfl
    | cons c l => exact absurd hl (hno c l)

/-- **A member is a term or a method with a type on the way to it.** -/
theorem isMember_iff {n : SymbolName} {path : List Descriptor} {last : Descriptor}
    (h : n.descriptor = Descriptor.render (path ++ [last])) (hlast : last.kind ≠ .space) :
    n.isMember = true ↔
      (last.kind = .term ∨ last.kind = .method) ∧ ∃ d ∈ path, d.kind = .type := by
  have htext : n.descriptor.toList =
      path.flatMap Descriptor.written ++ (last.name.written ++ (last.kind.mark ++ [])) := by
    simp [h, Descriptor.render, Descriptor.written]
  obtain ⟨after, hread, hsome⟩ := exists_afterLast_path path
    (last.name.written ++ (last.kind.mark ++ [])) none
  rw [Option.isSome_none, Bool.false_eq_true, false_or] at hsome
  rw [isMember_iff_exists, htext, hread, afterLast_name mem_markChars_of_sharp, afterLast_sharp,
    ← hsome]
  cases hkind : last.kind with
  | space => exact absurd hkind hlast
  | type => simp [afterLast]
  | term | method => cases after <;> simp [afterLast, DescriptorKind.mark]

/-! ### Last names -/

theorem mem_markChars_of_separator (c : Char) (h : (c = '/' || c = '#' || c = '.') = true) :
    c ∈ markChars := by
  simp only [Bool.or_eq_true, decide_eq_true_eq] at h
  rcases h with (rfl | rfl) | rfl <;> decide

/-- Every step ends in a separator. -/
theorem afterLast_separator (k : DescriptorKind) :
    afterLast (fun c => c = '/' || c = '#' || c = '.') (k.mark ++ rest) false after =
      afterLast (fun c => c = '/' || c = '#' || c = '.') rest false (some []) := by
  cases k with
  | space | type | term => rfl
  | method => cases after <;> rfl

/-- **Behind a path** a name begins. -/
theorem afterLast_path (path : List Descriptor) :
    afterLast (fun c => c = '/' || c = '#' || c = '.')
        (path.flatMap Descriptor.written ++ rest) false after =
      afterLast (fun c => c = '/' || c = '#' || c = '.') rest false
        (if path = [] then after else some []) := by
  induction path generalizing after with
  | nil => rfl
  | cons d path ih =>
    rw [List.flatMap_cons, Descriptor.written, List.append_assoc, List.append_assoc,
      afterLast_name mem_markChars_of_separator, afterLast_separator, ih]
    simp

theorem trimEnding_append {ending : String} {e : List Char} (h : ending.toList = e)
    (cs : List Char) : trimEnding (String.ofList (cs ++ e)) ending = String.ofList cs := by
  have hsuffix : ending.toList <:+ cs ++ ending.toList := List.suffix_append _ _
  subst h
  simp [trimEnding, Text.dropEnding?, hsuffix]

theorem trimEnding_of_ne {ending : String} {e : List Char} {c d : Char} (h : ending.toList = e)
    (hlast : e.getLast? = some d) (hne : c ≠ d) (cs : List Char) :
    trimEnding (String.ofList (cs ++ [c])) ending = String.ofList (cs ++ [c]) := by
  have hsuffix : ¬ e <:+ cs ++ [c] := by
    rintro ⟨t, ht⟩
    have hsame := congrArg List.getLast? ht
    rw [List.getLast?_append, hlast, List.getLast?_concat] at hsame
    exact hne (Option.some.inj hsame).symm
  simp [trimEnding, Text.dropEnding?, h, hsuffix]

/-- A written name does not end like a mark. -/
theorem exists_written_eq (n : DescriptorName) :
    ∃ w c, n.written = w ++ [c] ∧ c ≠ '.' ∧ c ≠ '#' ∧ c ≠ ')' := by
  cases n with
  | plain s ne bare =>
    have hne : s.toList ≠ [] := fun h => ne (String.toList_injective h)
    have hlast := bare _ (List.getLast_mem hne)
    refine ⟨s.toList.dropLast, s.toList.getLast hne, (List.dropLast_concat_getLast hne).symm, ?_⟩
    refine ⟨?_, ?_, ?_⟩ <;> exact fun h => hlast (h ▸ by decide)
  | quoted s bare => exact ⟨tick :: s.toList, tick, rfl, by decide, by decide, by decide⟩

/-- **The mark behind the last name goes,** and nothing else. -/
theorem trimEnding_render (path : List Descriptor) {last : Descriptor}
    (hlast : last.kind ≠ .space) :
    trimEnding (trimEnding (trimEnding (Descriptor.render (path ++ [last])) ".") "#") "()" =
      String.ofList (path.flatMap Descriptor.written ++ last.name.written) := by
  obtain ⟨w, c, hname, hdot, hsharp, hparen⟩ := exists_written_eq last.name
  have hrender : Descriptor.render (path ++ [last]) =
      String.ofList (path.flatMap Descriptor.written ++ w ++ [c] ++ last.kind.mark) := by
    simp [Descriptor.render, Descriptor.written, hname]
  rw [hrender, hname, ← List.append_assoc]
  generalize path.flatMap Descriptor.written ++ w = cs
  have hpoint : ".".toList = ['.'] := rfl
  have hgrid : "#".toList = ['#'] := rfl
  have hparens : "()".toList = ['(', ')'] := rfl
  cases hkind : last.kind with
  | space => exact absurd hkind hlast
  | type =>
    rw [DescriptorKind.mark, trimEnding_of_ne hpoint rfl (by decide), trimEnding_append hgrid,
      trimEnding_of_ne hparens rfl hparen]
  | term =>
    rw [DescriptorKind.mark, trimEnding_append hpoint, trimEnding_of_ne hgrid rfl hsharp,
      trimEnding_of_ne hparens rfl hparen]
  | method =>
    have hmark : cs ++ [c] ++ DescriptorKind.method.mark =
        cs ++ [c] ++ ['('] ++ [')'] ++ ['.'] := by
      simp [DescriptorKind.mark]
    rw [hmark, trimEnding_append hpoint, trimEnding_of_ne hgrid rfl (by decide),
      List.append_assoc (cs ++ [c])]
    exact trimEnding_append hparens (cs ++ [c])

theorem dropWhile_tick (h : tick ∉ w) : w.dropWhile (fun c => decide (c = tick)) = w := by
  cases w with
  | nil => rfl
  | cons c w =>
    have hc : c ≠ tick := fun hc => h (hc ▸ List.mem_cons_self)
    rw [List.dropWhile_cons_of_neg (by simpa using hc)]

/-- Without the backticks around it, a written name is the name itself. -/
theorem strip_written (n : DescriptorName) :
    ((n.written.dropWhile (fun c => decide (c = tick))).reverse.dropWhile
      (fun c => decide (c = tick))).reverse = n.text.toList := by
  cases n with
  | plain s ne bare =>
    have hs : tick ∉ s.toList := fun h => bare _ h (by decide)
    rw [DescriptorName.written, DescriptorName.text, dropWhile_tick hs,
      dropWhile_tick (by simpa using hs), List.reverse_reverse]
  | quoted s bare =>
    rw [DescriptorName.written, DescriptorName.text, List.dropWhile_cons_of_pos (by simp)]
    cases hs : s.toList with
    | nil => rfl
    | cons c w =>
      rw [hs] at bare
      have hc : c ≠ tick := fun hc => bare (hc ▸ List.mem_cons_self)
      rw [List.cons_append, List.dropWhile_cons_of_neg (by simpa using hc), ← List.cons_append,
        List.reverse_append, List.reverse_singleton, List.singleton_append,
        List.dropWhile_cons_of_pos (by simp),
        dropWhile_tick (by rwa [List.mem_reverse]), List.reverse_reverse]

/-- **The simple name is the last name of the path.** -/
theorem simple_eq {n : SymbolName} {path : List Descriptor} {last : Descriptor}
    (h : n.descriptor = Descriptor.render (path ++ [last])) (hlast : last.kind ≠ .space) :
    n.simple = last.name.text := by
  have hread : (afterLast (fun c => c = '/' || c = '#' || c = '.')
      (path.flatMap Descriptor.written ++ (last.name.written ++ [])) false none).getD
        (path.flatMap Descriptor.written ++ last.name.written) = last.name.written := by
    rw [afterLast_path, afterLast_name mem_markChars_of_separator]
    by_cases hpath : path = []
    · simp [hpath, afterLast]
    · simp [hpath, afterLast]
  rw [List.append_nil] at hread
  unfold simple
  rw [h, trimEnding_render path hlast]
  dsimp only
  rw [String.toList_ofList, hread, strip_written, String.ofList_toList]

/-! ### Fields -/

theorem split_of_not_mem (h : ' ' ∉ s.toList) : Text.split ' ' s = [s] := by
  have hjoin : Text.join " " [s] = s := String.intercalate_singleton
  conv_lhs => rw [← hjoin]
  exact Text.split_join rfl (List.cons_ne_nil s []) fun t ht => List.mem_singleton.mp ht ▸ h

/-- A field ends at the first blank. -/
theorem split_cons (h : ' ' ∉ s.toList) (t : String) :
    Text.split ' ' (s ++ " " ++ t) = s :: Text.split ' ' t := by
  rw [Text.split_append rfl, split_of_not_mem h, List.singleton_append]

/-- A text with other fields than `local` in front names no symbol of one document. -/
theorem namesLocal_eq_false (h : ' ' ∉ s.toList) (hs : s ≠ "local") (t : String) :
    namesLocal (s ++ " " ++ t) = false := by
  rw [Bool.eq_false_iff, namesLocal, Text.startsIn, ne_eq, List.isPrefixOf_iff_prefix]
  rintro ⟨rest, hrest⟩
  have hsame : s ++ " " ++ t = "local" ++ " " ++ String.ofList rest :=
    String.toList_injective (by simp [← hrest])
  have hsplit := congrArg (Text.split ' ') hsame
  rw [split_cons h, split_cons (by decide)] at hsplit
  exact hs (List.cons.inj hsplit).1

/-- **Five fields are told apart,** and the last one is not looked into. -/
theorem parse_fields {scheme manager package version : String} (hscheme : ' ' ∉ scheme.toList)
    (hmanager : ' ' ∉ manager.toList) (hpackage : ' ' ∉ package.toList)
    (hversion : ' ' ∉ version.toList) (hlocal : scheme ≠ "local") (descriptor : String) :
    parse (Text.join " " [scheme, manager, package, version, descriptor]) =
      .ok { scheme, manager, package, descriptor } := by
  have hjoin : Text.join " " [scheme, manager, package, version, descriptor] =
      scheme ++ " " ++ (manager ++ " " ++ (package ++ " " ++ (version ++ " " ++ descriptor))) := by
    simp [Text.join, String.append_assoc]
  obtain ⟨first, more, hfields⟩ := List.exists_cons_of_ne_nil (Text.split_ne_nil ' ' descriptor)
  have hne : scheme ++ " " ++ (manager ++ " " ++ (package ++ " " ++ (version ++ " " ++ descriptor)))
      ≠ "" := fun h => by simpa using congrArg String.toList h
  rw [hjoin, parse, if_neg hne, namesLocal_eq_false hscheme hlocal, if_neg Bool.false_ne_true,
    split_cons hscheme, split_cons hmanager, split_cons hpackage, split_cons hversion, hfields]
  dsimp only
  rw [← hfields, Text.join_split rfl]

/-- **Names of symbols are read back.**  Whatever the names on the path hold between their
backticks, the fields and the descriptor are told apart; the simple name is the last one of the
path; and the symbol is a member if it is a term or a method with a type on the way to it. -/
theorem parsesBack_parse {scheme manager package version : String}
    (hscheme : ' ' ∉ scheme.toList) (hmanager : ' ' ∉ manager.toList)
    (hpackage : ' ' ∉ package.toList) (hversion : ' ' ∉ version.toList) (hlocal : scheme ≠ "local")
    (path : List Descriptor) (last : Descriptor) (hlast : last.kind ≠ .space) :
    ∃ n : SymbolName,
      parse (Text.join " " [scheme, manager, package, version, Descriptor.render (path ++ [last])])
        = .ok n ∧
      n = { scheme, manager, package, descriptor := Descriptor.render (path ++ [last]) } ∧
      n.simple = last.name.text ∧
      (n.isMember = true ↔
        (last.kind = .term ∨ last.kind = .method) ∧ ∃ d ∈ path, d.kind = .type) :=
  ⟨_, parse_fields hscheme hmanager hpackage hversion hlocal _, rfl, simple_eq rfl hlast,
    isMember_iff rfl hlast⟩

/-- A method of a type in a file whose name holds every mark, and a blank. -/
theorem parsesBack_parse_grow :
    ' ' ∉ "scip-typescript".toList ∧ ' ' ∉ "npm".toList ∧ ' ' ∉ "app".toList ∧
      ' ' ∉ "1.0.0".toList ∧ "scip-typescript" ≠ "local" ∧ DescriptorKind.method ≠ .space ∧
      ∃ n : SymbolName,
        parse "scip-typescript npm app 1.0.0 src/`my #1 (lib).ts`/Box#grow()." = .ok n ∧
        n.descriptor = "src/`my #1 (lib).ts`/Box#grow()." ∧ n.simple = "grow" ∧
        n.isMember = true := by
  have hscheme : ' ' ∉ "scip-typescript".toList := by decide
  have hmanager : ' ' ∉ "npm".toList := by decide
  have hpackage : ' ' ∉ "app".toList := by decide
  have hversion : ' ' ∉ "1.0.0".toList := by decide
  have hlocal : "scip-typescript" ≠ "local" := by decide
  have hmethod : DescriptorKind.method ≠ .space := by decide
  have hsrc : ∀ c ∈ "src".toList, c ∉ markChars := by simp [markChars, tick]
  have hbox : ∀ c ∈ "Box".toList, c ∉ markChars := by simp [markChars, tick]
  have hgrow : ∀ c ∈ "grow".toList, c ∉ markChars := by simp [markChars, tick]
  obtain ⟨n, hparse, rfl, hsimple, hmember⟩ :=
    parsesBack_parse hscheme hmanager hpackage hversion hlocal
      [⟨.space, .plain "src" (by decide) hsrc⟩,
        ⟨.space, .quoted "my #1 (lib).ts" (by decide)⟩,
        ⟨.type, .plain "Box" (by decide) hbox⟩]
      ⟨.method, .plain "grow" (by decide) hgrow⟩ hmethod
  refine ⟨hscheme, hmanager, hpackage, hversion, hlocal, hmethod, _, hparse, rfl, hsimple, ?_⟩
  exact hmember.mpr ⟨.inr rfl, _, .tail _ (.tail _ (.head _)), rfl⟩

end SymbolName
end Moniker
