/-
# JSON written and read back

What is written over several lines is read back as it was, if it has no floating-point number
in it (`Json.parse?_indented`).

A value is read up to where its text ends, whatever stands behind it, as long as that could
not go on with a number (`Json.Ends`).  The induction is on the value: a list or a record is
read if its members are (`Json.Reads`), and the room they need is the length of their texts.
-/

import Moniker.Data.Json
import Mathlib.Data.List.Basic

namespace Moniker
namespace Json

variable {c : Char} {cs ds es after rest done : List Char} {style : Escaping} {depth fuel n : Nat}
  {s : String} {v : Value} {items : List Value} {fields : List (String × Value)}

/-! ### Blanks -/

theorem skip_cons (h : ¬ (c = ' ' ∨ c = '\t' ∨ c = '\n' ∨ c = '\r')) (cs : List Char) :
    skip (c :: cs) = c :: cs := if_neg h

@[simp] theorem skip_margin (depth : Nat) (cs : List Char) :
    skip ((margin depth).toList ++ cs) = skip cs := by
  have hblanks (k : Nat) : skip (List.replicate k ' ' ++ cs) = skip cs := by
    induction k with
    | zero => rfl
    | succ k ih => rwa [List.replicate_succ, List.cons_append, skip, if_pos (.inl rfl)]
  rw [margin, String.toList_ofList, List.cons_append, skip, if_pos (by decide), hblanks]

/-- Reading a value begins with dropping blanks. -/
theorem value?_congr (h : skip cs = skip ds) : value? fuel cs = value? fuel ds := by
  cases fuel with
  | zero => rfl
  | succ fuel => rw [value?, value?, h]

theorem items?_congr (h : skip cs = skip ds) : items? fuel cs = items? fuel ds := by
  cases fuel with
  | zero => rfl
  | succ fuel => rw [items?, items?, value?_congr h]

theorem fields?_congr (h : skip cs = skip ds) : fields? fuel cs = fields? fuel ds := by
  cases fuel with
  | zero => rfl
  | succ fuel => rw [fields?, fields?, h]

/-! ### Texts -/

theorem hexValue?_hexDigit : ∀ d < 16, hexValue? (Text.hexDigit d) = some d := by decide

theorem hex4?_hex (hn : n < 65536) : hex4? (Text.hex 4 n ++ rest) = some (n, rest) := by
  have hdigit (k : Nat) : hexValue? (Text.hexDigit (k % 16)) = some (k % 16) :=
    hexValue?_hexDigit _ (Nat.mod_lt k (by decide))
  simp only [Text.hex, List.nil_append, List.cons_append, hex4?, hdigit, Option.bind_eq_bind,
    Option.bind_some]
  congr
  omega

theorem toNat_of_needsNumber (h : needsNumber style c = true) : c.toNat < 0xD800 := by
  simp only [needsNumber, Bool.or_eq_true, Bool.and_eq_true, decide_eq_true_eq] at h
  rcases h with ((h | h) | h) | ⟨-, (rfl | rfl) | rfl⟩
  · omega
  · omega
  · omega
  · decide
  · decide
  · decide

theorem unitChar_toNat (h : c.toNat < 0xD800) : unitChar c.toNat rest = (c, rest) := by
  unfold unitChar
  rw [if_neg (by omega), if_neg (by omega), Char.ofNat_toNat]

/-- **A character is read as it was written.** -/
theorem text?_escapeChar (style : Escaping) (c : Char) :
    text? (fuel + 1) (escapeChar style c ++ rest) done = text? fuel rest (c :: done) := by
  unfold escapeChar
  split
  · next hc => rcases hc with rfl | rfl <;> rfl
  split
  · next hc => subst hc; rfl
  split
  · next hc => subst hc; rfl
  split
  · next hc => subst hc; rfl
  split
  · next hnumber =>
    have hlt := toNat_of_needsNumber hnumber
    rw [List.cons_append, List.cons_append, text?, hex4?_hex (by omega), Option.bind_eq_bind,
      Option.bind_some]
    dsimp only
    rw [unitChar_toNat hlt]
  · next hplain _ _ _ hnumber =>
    have hspace : ¬ c.toNat < 0x20 := fun hlt => hnumber (by simp [needsNumber, hlt])
    have hslash : c ≠ '\\' := fun hc => hplain (.inr hc)
    rw [List.cons_append, List.nil_append, text?, if_neg (not_or_intro hspace hslash)]
    · exact fun hc => hplain (.inl hc)
    · exact fun _ hc _ => hslash hc
    · exact fun _ _ hc _ => hslash hc

/-- **A text is read up to its closing quote.** -/
theorem text?_flatMap (hfuel : cs.length < fuel) :
    text? fuel (cs.flatMap (escapeChar style) ++ '"' :: rest) done =
      some (String.ofList (done.reverse ++ cs), rest) := by
  induction cs generalizing fuel done with
  | nil =>
    obtain ⟨fuel, rfl⟩ := Nat.exists_eq_succ_of_ne_zero (Nat.ne_zero_of_lt hfuel)
    rw [List.append_nil]
    rfl
  | cons c cs ih =>
    obtain ⟨fuel, rfl⟩ := Nat.exists_eq_succ_of_ne_zero (Nat.ne_zero_of_lt hfuel)
    rw [List.flatMap_cons, List.append_assoc, text?_escapeChar, ih (Nat.lt_of_succ_lt_succ hfuel),
      List.reverse_cons, List.append_assoc, List.singleton_append]

theorem escapeChar_ne_nil (style : Escaping) (c : Char) : escapeChar style c ≠ [] := by
  unfold escapeChar
  grind

/-- A text takes no less room than its characters. -/
theorem length_le_flatMap (style : Escaping) (cs : List Char) :
    cs.length ≤ (cs.flatMap (escapeChar style)).length := by
  induction cs with
  | nil => exact Nat.zero_le _
  | cons c cs ih =>
    have hpos := List.length_pos_iff.mpr (escapeChar_ne_nil style c)
    rw [List.flatMap_cons, List.length_append, List.length_cons]
    omega

/-- What is behind the opening quote of a text that was written is read as that text. -/
theorem text?_quote (style : Escaping) (s : String) (rest : List Char) :
    ∃ more, (quote style s).toList ++ rest = '"' :: more ∧
      text? (more.length + 1) more [] = some (s, rest) := by
  refine ⟨s.toList.flatMap (escapeChar style) ++ '"' :: rest, ?_, ?_⟩
  · simp [quote]
  · have hle := length_le_flatMap style s.toList
    rw [text?_flatMap, List.reverse_nil, List.nil_append, String.ofList_toList]
    rw [List.length_append]
    omega

/-! ### Numbers -/

/-- What can stand behind a number without being taken for more of it. -/
def Ends (rest : List Char) : Prop :=
  ∀ c, rest.head? = some c → c.isDigit = false ∧ c ≠ '.' ∧ c ≠ 'e' ∧ c ≠ 'E'

theorem natOf_toDigits (n : Nat) : natOf (Nat.toDigits 10 n) = n :=
  Nat.ofDigitChars_ten_toDigits

theorem head?_toDigits (hn : 0 < n) : (Nat.toDigits 10 n).head? ≠ some '0' := by
  induction n using Nat.strongRecOn with
  | ind n ih =>
    by_cases hlt : n < 10
    · rw [Nat.toDigits_of_lt_base hlt]
      have hdigit : ∀ d < 10, 0 < d → [Nat.digitChar d].head? ≠ some '0' := by decide
      exact hdigit n hlt hn
    · rw [Nat.toDigits_of_base_le (by decide) (Nat.le_of_not_lt hlt),
        List.head?_append_of_ne_nil _ Nat.toDigits_ne_nil]
      exact ih (n / 10) (by omega) (by omega)

theorem spanDigits_append (hcs : ∀ c ∈ cs, c.isDigit = true) (hrest : Ends rest) :
    spanDigits (cs ++ rest) = (cs, rest) := by
  have hnone : rest.takeWhile Char.isDigit = [] ∧ rest.dropWhile Char.isDigit = rest := by
    cases rest with
    | nil => exact ⟨rfl, rfl⟩
    | cons c rest =>
      have hc := Bool.eq_false_iff.mp (hrest c rfl).1
      exact ⟨List.takeWhile_cons_of_neg hc, List.dropWhile_cons_of_neg hc⟩
  rw [spanDigits, List.takeWhile_append_of_pos hcs, List.dropWhile_append_of_pos hcs, hnone.1,
    hnone.2, List.append_nil]

theorem fraction?_of_ends (h : Ends rest) : fraction? rest = some ([], rest) := by
  unfold fraction?
  split
  · exact absurd rfl (h _ rfl).2.1
  · rfl

theorem exponent?_of_ends (h : Ends rest) : exponent? rest = some (none, rest) := by
  cases rest with
  | nil => rfl
  | cons c rest =>
    obtain ⟨-, -, he, hE⟩ := h c rfl
    unfold exponent?
    exact if_neg (not_or_intro he hE)

theorem exists_toDigits (n : Nat) :
    ∃ d ds, Nat.toDigits 10 n = d :: ds ∧ d.isDigit = true := by
  obtain ⟨d, ds, h⟩ := List.exists_cons_of_ne_nil (Nat.toDigits_ne_nil : Nat.toDigits 10 n ≠ [])
  have hmem : d ∈ Nat.toDigits 10 n := h ▸ List.mem_cons_self
  exact ⟨d, ds, h, Nat.isDigit_of_mem_toDigits (by decide) (Nat.le_refl 10) hmem⟩

theorem unsigned?_toDigits (negative : Bool) (n : Nat) (h : Ends rest) :
    unsigned? negative (Nat.toDigits 10 n ++ rest) =
      some (.int (if negative then -(n : Int) else n), rest) := by
  have hdigits : ∀ c ∈ Nat.toDigits 10 n, c.isDigit = true := fun c hc =>
    Nat.isDigit_of_mem_toDigits (by decide) (Nat.le_refl 10) hc
  have hlead : ¬ (1 < (Nat.toDigits 10 n).length ∧ (Nat.toDigits 10 n).head? = some '0') := by
    rintro ⟨hlen, hhead⟩
    rcases Nat.eq_zero_or_pos n with rfl | hn
    · exact absurd hlen (by decide)
    · exact head?_toDigits hn hhead
  simp [unsigned?, spanDigits_append hdigits h, hlead, fraction?_of_ends h, exponent?_of_ends h,
    natOf_toDigits]

theorem toList_ofNat (n : Nat) : (toString (Int.ofNat n)).toList = Nat.toDigits 10 n :=
  String.toList_ofList

theorem toList_negSucc (n : Nat) :
    (toString (Int.negSucc n)).toList = '-' :: Nat.toDigits 10 (n + 1) := by
  simp [toString, Int.repr, Nat.repr]

/-- The text of a whole number begins with a digit or a minus. -/
theorem exists_toString (n : Int) :
    ∃ c cs, (toString n).toList = c :: cs ∧ (c.isDigit = true ∨ c = '-') := by
  cases n with
  | ofNat n =>
    obtain ⟨d, ds, hcons, hdigit⟩ := exists_toDigits n
    exact ⟨d, ds, (toList_ofNat n).trans hcons, .inl hdigit⟩
  | negSucc n => exact ⟨'-', _, toList_negSucc n, .inr rfl⟩

/-- **A whole number is read as it was written.** -/
theorem number?_toString (n : Int) (h : Ends rest) :
    number? ((toString n).toList ++ rest) = some (.int n, rest) := by
  cases n with
  | ofNat n =>
    rw [toList_ofNat]
    unfold number?
    split
    · next after heq =>
      obtain ⟨d, ds, hcons, hdigit⟩ := exists_toDigits n
      rw [hcons] at heq
      obtain rfl := (List.cons.inj heq).1
      exact absurd hdigit (by decide)
    · exact unsigned?_toDigits false n h
  | negSucc n =>
    rw [toList_negSucc]
    exact unsigned?_toDigits true (n + 1) h

/-! ### Values -/

/-- A value without floating-point numbers. -/
inductive Whole : Value → Prop
  | null : Whole .null
  | bool (b : Bool) : Whole (.bool b)
  | int (n : Int) : Whole (.int n)
  | str (s : String) : Whole (.str s)
  | list {items : List Value} : (∀ v ∈ items, Whole v) → Whole (.list items)
  | record {fields : List (String × Value)} : (∀ f ∈ fields, Whole f.2) → Whole (.record fields)

/-- Is the value read as it was written, given room for its text? -/
def Reads (v : Value) : Prop :=
  ∀ depth fuel rest, (indentedAt depth v).toList.length ≤ fuel → Ends rest →
    value? (fuel + 1) ((indentedAt depth v).toList ++ rest) = some (v, rest)

theorem ends_nil : Ends [] := nofun

theorem ends_cons (h : c.isDigit = false ∧ c ≠ '.' ∧ c ≠ 'e' ∧ c ≠ 'E') : Ends (c :: rest) :=
  fun _ hd => Option.some.inj hd ▸ h

theorem ends_margin (depth : Nat) (rest : List Char) : Ends ((margin depth).toList ++ rest) := by
  rw [margin, String.toList_ofList, List.cons_append]
  exact ends_cons (by decide)

theorem value?_number (h : c.isDigit = true ∨ c = '-') :
    value? (fuel + 1) (c :: rest) = number? (c :: rest) := by
  have hne : ∀ d ∈ [' ', '\t', '\n', '\r', '"', '[', 't', 'f', 'n', '\x7b'], c ≠ d := by
    rintro d hd rfl
    simp only [List.mem_cons, List.not_mem_nil, or_false] at hd
    rcases hd with rfl | rfl | rfl | rfl | rfl | rfl | rfl | rfl | rfl | rfl <;>
      exact absurd h (by decide)
  simp only [List.mem_cons, List.not_mem_nil, or_false] at hne
  rw [value?, skip_cons (by grind)]
  grind

theorem value?_quote (h : text? (cs.length + 1) cs [] = some (s, rest)) :
    value? (fuel + 1) ('"' :: cs) = some (.str s, rest) := by
  rw [value?, skip_cons (by decide)]
  exact Option.map_eq_some_iff.mpr ⟨_, h, rfl⟩

theorem word?_append (word : String) (v : Value) (rest : List Char) :
    word? word v (word.toList ++ rest) = some (v, rest) := by
  have hprefix : word.toList.isPrefixOf (word.toList ++ rest) = true :=
    List.isPrefixOf_iff_prefix.mpr (List.prefix_append _ _)
  rw [word?, if_pos hprefix, ← String.length_toList, List.drop_left]

theorem reads_null : Reads .null := by
  intro depth fuel rest _ _
  simpa [indentedAt, scalar, value?, skip] using word?_append "null" .null rest

theorem reads_bool (b : Bool) : Reads (.bool b) := by
  intro depth fuel rest _ _
  cases b with
  | false => simpa [indentedAt, scalar, value?, skip] using word?_append "false" (.bool false) rest
  | true => simpa [indentedAt, scalar, value?, skip] using word?_append "true" (.bool true) rest

theorem reads_int (n : Int) : Reads (.int n) := by
  intro depth fuel rest hfuel hrest
  obtain ⟨c, cs, hcons, hc⟩ := exists_toString n
  have hnumber := number?_toString n hrest
  change value? (fuel + 1) ((toString n).toList ++ rest) = _
  rw [hcons, List.cons_append] at hnumber ⊢
  rw [value?_number hc, hnumber]

theorem reads_str (s : String) : Reads (.str s) := by
  intro depth fuel rest hfuel hrest
  obtain ⟨more, hsplit, htext⟩ := text?_quote .markup s rest
  change value? (fuel + 1) ((quote .markup s).toList ++ rest) = _
  rw [hsplit, value?_quote htext]

/-! ### Lists and records -/

/-- Nothing is read where a list ends. -/
theorem value?_bracket (h : skip cs = ']' :: rest) : value? fuel cs = none := by
  cases fuel with
  | zero => rfl
  | succ fuel =>
    rw [value?, h]
    rfl

theorem items?_last (hv : value? fuel cs = some (v, after)) (hend : skip after = ']' :: rest) :
    items? (fuel + 1) cs = some ([v], rest) := by
  simp [items?, hv, hend]

theorem items?_more (hv : value? fuel cs = some (v, after)) (hcomma : skip after = ',' :: ds)
    (hmore : items? fuel ds = some (items, rest)) :
    items? (fuel + 1) cs = some (v :: items, rest) := by
  simp [items?, hv, hcomma, hmore]

theorem fields?_last (hkey : text? (cs.length + 1) cs [] = some (s, ':' :: ds))
    (hv : value? fuel ds = some (v, after)) (hend : skip after = '\x7d' :: rest) :
    fields? (fuel + 1) ('"' :: cs) = some ([(s, v)], rest) := by
  simp [fields?, skip, hkey, hv, hend]

theorem fields?_more (hkey : text? (cs.length + 1) cs [] = some (s, ':' :: ds))
    (hv : value? fuel ds = some (v, after)) (hcomma : skip after = ',' :: es)
    (hmore : fields? fuel es = some (fields, rest)) :
    fields? (fuel + 1) ('"' :: cs) = some ((s, v) :: fields, rest) := by
  simp [fields?, skip, hkey, hv, hcomma, hmore]

/-- What stands between two items of a list or two fields of a record. -/
theorem join_cons_cons (depth : Nat) (p q : String) (parts : List String) :
    (Text.join ("," ++ margin depth) (p :: q :: parts)).toList =
      p.toList ++ ',' :: ((margin depth).toList ++
        (Text.join ("," ++ margin depth) (q :: parts)).toList) := by
  simp [Text.join, String.toList_intercalate]

theorem join_singleton (sep p : String) : Text.join sep [p] = p := String.intercalate_singleton

/-- **The items of a list** are read if each of them is. -/
theorem items?_indentedItems (hne : items ≠ []) (h : ∀ v ∈ items, Reads v)
    (hfuel : (Text.join ("," ++ margin depth) (indentedItems depth items)).toList.length ≤ fuel)
    (hend : skip cs = ']' :: rest) (hcs : Ends cs) :
    items? (fuel + 2)
      ((Text.join ("," ++ margin depth) (indentedItems depth items)).toList ++ cs) =
        some (items, rest) := by
  induction items generalizing fuel with
  | nil => exact absurd rfl hne
  | cons v items ih =>
    have hv := h v List.mem_cons_self depth
    cases items with
    | nil =>
      rw [indentedItems, indentedItems, join_singleton] at hfuel ⊢
      exact items?_last (hv fuel cs hfuel hcs) hend
    | cons w items =>
      have hmore := @ih (fuel - 1) (List.cons_ne_nil w items)
        fun u hu => h u (List.mem_cons_of_mem _ hu)
      rw [indentedItems] at hfuel hmore ⊢
      rw [indentedItems, join_cons_cons] at hfuel ⊢
      rw [List.length_append, List.length_cons, List.length_append] at hfuel
      rw [List.append_assoc, List.cons_append, List.append_assoc]
      obtain ⟨fuel, rfl⟩ : ∃ k, fuel = k + 1 := ⟨fuel - 1, by omega⟩
      refine items?_more (hv _ _ (by omega) (ends_cons (by decide))) (skip_cons (by decide) _) ?_
      rw [items?_congr (skip_margin depth _)]
      exact hmore (by omega)

/-- The text of a field begins with its key. -/
theorem exists_key (k : String) (depth : Nat) (v : Value) (cs : List Char) :
    ∃ more, (quote .markup k ++ ": " ++ indentedAt depth v).toList ++ cs = '"' :: more ∧
      text? (more.length + 1) more [] =
        some (k, ':' :: ' ' :: ((indentedAt depth v).toList ++ cs)) := by
  obtain ⟨more, hsplit, htext⟩ :=
    text?_quote .markup k (':' :: ' ' :: ((indentedAt depth v).toList ++ cs))
  refine ⟨more, ?_, htext⟩
  rw [← hsplit]
  simp

theorem length_field_le (k : String) (depth : Nat) (v : Value) :
    (indentedAt depth v).toList.length ≤
      (quote .markup k ++ ": " ++ indentedAt depth v).toList.length := by
  rw [String.toList_append, List.length_append]
  exact Nat.le_add_left _ _

/-- **The fields of a record** are read if the value of each of them is. -/
theorem fields?_indentedFields (hne : fields ≠ []) (h : ∀ f ∈ fields, Reads f.2)
    (hfuel : (Text.join ("," ++ margin depth) (indentedFields depth fields)).toList.length ≤ fuel)
    (hend : skip cs = '\x7d' :: rest) (hcs : Ends cs) :
    fields? (fuel + 2)
      ((Text.join ("," ++ margin depth) (indentedFields depth fields)).toList ++ cs) =
        some (fields, rest) := by
  induction fields generalizing fuel with
  | nil => exact absurd rfl hne
  | cons f fields ih =>
    obtain ⟨k, v⟩ := f
    have hlen := length_field_le k depth v
    have hv (fuel : Nat) (tail : List Char) (hroom : (indentedAt depth v).toList.length ≤ fuel)
        (htail : Ends tail) :
        value? (fuel + 1) (' ' :: ((indentedAt depth v).toList ++ tail)) = some (v, tail) := by
      have hblank : skip (' ' :: ((indentedAt depth v).toList ++ tail)) =
          skip ((indentedAt depth v).toList ++ tail) := if_pos (.inl rfl)
      rw [value?_congr hblank]
      exact h (k, v) List.mem_cons_self depth fuel tail hroom htail
    cases fields with
    | nil =>
      rw [indentedFields, indentedFields, join_singleton] at hfuel ⊢
      obtain ⟨more, hsplit, hkey⟩ := exists_key k depth v cs
      rw [hsplit]
      exact fields?_last hkey (hv fuel cs (Nat.le_trans hlen hfuel) hcs) hend
    | cons g fields =>
      have hmore := @ih (fuel - 1) (List.cons_ne_nil g fields)
        fun u hu => h u (List.mem_cons_of_mem _ hu)
      rw [indentedFields] at hfuel hmore ⊢
      rw [indentedFields, join_cons_cons] at hfuel ⊢
      rw [List.length_append, List.length_cons, List.length_append] at hfuel
      rw [List.append_assoc, List.cons_append, List.append_assoc]
      obtain ⟨fuel, rfl⟩ : ∃ k, fuel = k + 1 := ⟨fuel - 1, by omega⟩
      obtain ⟨more, hsplit, hkey⟩ := exists_key k depth v _
      rw [hsplit]
      refine fields?_more hkey (hv _ _ (by omega) (ends_cons (by decide)))
        (skip_cons (by decide) _) ?_
      rw [fields?_congr (skip_margin depth _)]
      exact hmore (by omega)

/-! ### Values -/

theorem value?_list (h : items? fuel cs = some (items, rest)) :
    value? (fuel + 1) ('[' :: cs) = some (.list items, rest) := by
  have hskip : skip ('[' :: cs) = '[' :: cs := skip_cons (by decide) cs
  simp only [value?, hskip]
  split
  · next hend =>
    -- A list that has items does not end at once.
    cases fuel with
    | zero => exact nomatch h
    | succ fuel => simp [items?, value?_bracket hend] at h
  · rw [h]
    rfl

theorem value?_record (h : fields? fuel cs = some (fields, rest)) :
    value? (fuel + 1) ('\x7b' :: cs) = some (.record fields, rest) := by
  have hskip : skip ('\x7b' :: cs) = '\x7b' :: cs := skip_cons (by decide) cs
  simp only [value?, hskip, Char.reduceEq, imp_self, reduceIte]
  split
  · next hend =>
    cases fuel with
    | zero => exact nomatch h
    | succ fuel => simp [fields?, hend] at h
  · rw [h]
    rfl

theorem toList_bracket (opening closing : String) (depth : Nat) {parts : List String}
    (h : parts ≠ []) : (bracket opening closing depth parts).toList =
      opening.toList ++ ((margin (depth + 1)).toList ++
        ((Text.join ("," ++ margin (depth + 1)) parts).toList ++
          ((margin depth).toList ++ closing.toList))) := by
  simp [bracket, h]

theorem indentedItems_ne_nil (h : items ≠ []) : indentedItems depth items ≠ [] := by
  obtain ⟨v, items, rfl⟩ := List.exists_cons_of_ne_nil h
  exact List.cons_ne_nil _ _

theorem indentedFields_ne_nil (h : fields ≠ []) : indentedFields depth fields ≠ [] := by
  obtain ⟨f, fields, rfl⟩ := List.exists_cons_of_ne_nil h
  exact List.cons_ne_nil _ _

theorem reads_list (h : ∀ v ∈ items, Reads v) : Reads (.list items) := by
  intro depth fuel rest hfuel _
  by_cases hne : items = []
  · subst hne
    simp [indentedAt, indentedItems, bracket, value?, skip]
  · rw [indentedAt, toList_bracket _ _ _ (indentedItems_ne_nil hne)] at hfuel ⊢
    simp only [String.reduceToList, List.cons_append, List.nil_append, List.append_assoc,
      List.length_cons, List.length_append, List.length_nil] at hfuel ⊢
    obtain ⟨fuel, rfl⟩ : ∃ k, fuel = k + 2 := ⟨fuel - 2, by omega⟩
    refine value?_list ?_
    rw [items?_congr (skip_margin _ _)]
    refine items?_indentedItems hne h (by omega) ?_ (ends_margin depth _)
    rw [skip_margin, skip_cons (by decide)]

theorem reads_record (h : ∀ f ∈ fields, Reads f.2) : Reads (.record fields) := by
  intro depth fuel rest hfuel _
  by_cases hne : fields = []
  · subst hne
    simp [indentedAt, indentedFields, bracket, openBrace, closeBrace, value?, skip]
  · rw [indentedAt, toList_bracket _ _ _ (indentedFields_ne_nil hne)] at hfuel ⊢
    simp only [openBrace, closeBrace, String.reduceToList, List.cons_append, List.nil_append,
      List.append_assoc, List.length_cons, List.length_append, List.length_nil] at hfuel ⊢
    obtain ⟨fuel, rfl⟩ : ∃ k, fuel = k + 2 := ⟨fuel - 2, by omega⟩
    refine value?_record ?_
    rw [fields?_congr (skip_margin _ _)]
    refine fields?_indentedFields hne h (by omega) ?_ (ends_margin depth _)
    rw [skip_margin, skip_cons (by decide)]

/-- **A value without floating-point numbers is read as it was written.** -/
theorem Whole.reads (h : Whole v) : Reads v := by
  induction h with
  | null => exact reads_null
  | bool b => exact reads_bool b
  | int n => exact reads_int n
  | str s => exact reads_str s
  | list _ ih => exact reads_list ih
  | record _ ih => exact reads_record ih

/-- **Written over several lines and read back.** -/
theorem parse?_indented (h : Whole v) : parse? (indented v) = some v := by
  have hroom : (indentedAt 0 v).toList.length ≤ 2 * (indented v).length + 1 := by
    rw [String.length_toList, indented]
    omega
  have hread := h.reads 0 _ [] hroom ends_nil
  rw [List.append_nil] at hread
  change (value? (2 * (indented v).length + 1 + 1) (indentedAt 0 v).toList).bind _ = _
  rw [hread]
  rfl

end Json
end Moniker
