/-
# Quoted text read back

A quoted text is read up to its closing quote, whatever stands behind it
(`Text.readQuoted_quote`).  Each character is written so that its first sign tells how it is
read: a backslash and a letter, a backslash and a number of so many digits, or itself
(`Text.exists_unescape?`).
-/

import Moniker.Proofs.Json
import Moniker.Text.Quoted
import Mathlib.Algebra.Ring.Nat

namespace Moniker
namespace Text

open Json (hexValue? hexValue?_hexDigit)

variable {c : Char} {cs rest : List Char} {n width limit : Nat}

/-! ### Reading -/

/-- The number that the first hexadecimal digits write. -/
def hexNumber? (width : Nat) (cs : List Char) : Option Nat :=
  if cs.length < width then none
  else (cs.take width).foldlM (fun n c => (hexValue? c).map (16 * n + ·)) 0

/-- The character with the number that the first digits write, and how many signs that takes,
the letter in front of the digits among them. -/
def numbered? (width limit : Nat) (cs : List Char) : Option (Char × Nat) :=
  (hexNumber? width cs).bind fun n =>
    if n < limit ∧ n.isValidChar then some (Char.ofNat n, width + 1) else none

/-- The character of a letter behind a backslash. -/
def ofShortEscape? (letter : Char) : Option Char :=
  match letter with
  | '"' => some '"'
  | '\\' => some '\\'
  | 'a' => some (Char.ofNat 7)
  | 'b' => some (Char.ofNat 8)
  | 't' => some (Char.ofNat 9)
  | 'n' => some (Char.ofNat 10)
  | 'v' => some (Char.ofNat 11)
  | 'f' => some (Char.ofNat 12)
  | 'r' => some (Char.ofNat 13)
  | _ => none

/-- The character that a text between quotes begins with, and how many signs behind the first
one write it. -/
def unescape? : List Char → Option (Char × Nat)
  | [] => none
  | c :: cs =>
    if c = '\\' then
      match cs with
      | [] => none
      | letter :: digits =>
        if letter = 'x' then numbered? 2 0x80 digits
        else if letter = 'u' then numbered? 4 0x110000 digits
        else if letter = 'U' then numbered? 8 0x110000 digits
        else (ofShortEscape? letter).map (·, 1)
    else if c = '"' ∨ c = '\n' then none
    else some (c, 0)

/-- Reads a text up to its closing quote. -/
def readText? : List Char → Option (List Char × List Char)
  | [] => none
  | c :: cs =>
    if c = '"' then some ([], cs)
    else
      (unescape? (c :: cs)).bind fun (d, behind) =>
        (readText? (cs.drop behind)).map fun (s, rest) => (d :: s, rest)
termination_by cs => cs.length
decreasing_by
  rw [List.length_drop, List.length_cons]
  omega

/-! ### Characters -/

theorem length_hex (width n : Nat) : (hex width n).length = width := by
  induction width generalizing n with
  | zero => rfl
  | succ width ih => rw [hex, List.length_append, ih, List.length_singleton]

theorem foldlM_hex (width n : Nat) :
    (hex width n).foldlM (fun n c => (hexValue? c).map (16 * n + ·)) 0 =
      some (n % 16 ^ width) := by
  induction width generalizing n with
  | zero => simp [hex, Nat.mod_one]
  | succ width ih =>
    rw [hex, List.foldlM_append, ih, Option.bind_eq_bind, Option.bind_some, List.foldlM_cons,
      hexValue?_hexDigit _ (Nat.mod_lt n (by decide)), Option.map_some, Option.bind_eq_bind,
      Option.bind_some, List.foldlM_nil, Nat.pow_succ', Nat.mod_mul, Nat.add_comm]
    rfl

/-- **Digits are read as they are written.** -/
theorem hexNumber?_hex (h : n < 16 ^ width) (rest : List Char) :
    hexNumber? width (hex width n ++ rest) = some n := by
  have hlength := length_hex width n
  rw [hexNumber?, if_neg (by rw [List.length_append]; omega), List.take_left' hlength, foldlM_hex,
    Nat.mod_eq_of_lt h]

theorem numbered?_hex (h : c.toNat < 16 ^ width) (hlimit : c.toNat < limit) (rest : List Char) :
    numbered? width limit (hex width c.toNat ++ rest) = some (c, width + 1) := by
  rw [numbered?, hexNumber?_hex h, Option.bind_some, if_pos ⟨hlimit, c.valid⟩, Char.ofNat_toNat]

theorem ofShortEscape?_of_shortEscape? {letter : Char} (h : shortEscape? c.toNat = some letter) :
    ofShortEscape? letter = some c ∧ letter ≠ 'x' ∧ letter ≠ 'u' ∧ letter ≠ 'U' := by
  have hcode : ∀ code, c.toNat = code → some (Char.ofNat code) = some c :=
    fun code hcode => by rw [← hcode, Char.ofNat_toNat]
  unfold shortEscape? at h
  split at h
  case h_8 => exact nomatch h
  all_goals
    obtain rfl := Option.some.inj h
    exact ⟨hcode _ ‹_›, by decide, by decide, by decide⟩

theorem unescape?_letter {letter : Char} (h : ofShortEscape? letter = some c)
    (hletter : letter ≠ 'x' ∧ letter ≠ 'u' ∧ letter ≠ 'U') (rest : List Char) :
    unescape? ('\\' :: letter :: rest) = some (c, 1) := by
  obtain ⟨hx, hu, hU⟩ := hletter
  rw [unescape?, if_pos rfl, if_neg hx, if_neg hu, if_neg hU, h, Option.map_some]

theorem newline_not_isPrintable : isPrintable '\n' = false := by decide

/-- **A character is read as it is written.** -/
theorem exists_unescape? (c : Char) (rest : List Char) :
    ∃ d more behind, escapeChar c ++ rest = d :: more ∧ d ≠ '"' ∧
      unescape? (d :: more) = some (c, behind) ∧ more.drop behind = rest := by
  unfold escapeChar
  split
  · next hc =>
    refine ⟨'\\', c :: rest, 1, rfl, by decide, ?_, rfl⟩
    rcases hc with rfl | rfl
    · exact unescape?_letter rfl (by decide) rest
    · exact unescape?_letter rfl (by decide) rest
  · next hc =>
    obtain ⟨hquote, hslash⟩ := not_or.mp hc
    split
    · next hprint =>
      have hnewline : c ≠ '\n' := by
        rintro rfl
        rw [newline_not_isPrintable] at hprint
        exact Bool.false_ne_true hprint
      refine ⟨c, rest, 0, rfl, hquote, ?_, rfl⟩
      unfold unescape?
      dsimp only
      rw [if_neg hslash, if_neg (not_or.mpr ⟨hquote, hnewline⟩)]
    · split
      · next letter hletter =>
        obtain ⟨hof, hne⟩ := ofShortEscape?_of_shortEscape? hletter
        exact ⟨'\\', letter :: rest, 1, rfl, by decide, unescape?_letter hof hne rest, rfl⟩
      · have hvalid : c.toNat < 0x110000 := by
          rcases c.valid with h | h
          · exact Nat.lt_trans h (by decide)
          · exact h.2
        split
        · next hlow =>
          refine ⟨'\\', 'x' :: (hex 2 c.toNat ++ rest), 3, rfl, by decide, ?_, by simp [length_hex]⟩
          rw [unescape?, if_pos rfl]
          exact numbered?_hex (by omega) (by omega) rest
        · split
          · next hmid =>
            refine ⟨'\\', 'u' :: (hex 4 c.toNat ++ rest), 5, rfl, by decide, ?_,
              by simp [length_hex]⟩
            rw [unescape?, if_pos rfl]
            exact numbered?_hex (by omega) hvalid rest
          · refine ⟨'\\', 'U' :: (hex 8 c.toNat ++ rest), 9, rfl, by decide, ?_,
              by simp [length_hex]⟩
            rw [unescape?, if_pos rfl]
            exact numbered?_hex (by omega) hvalid rest

/-! ### Texts -/

theorem readText?_flatMap (cs rest : List Char) :
    readText? (cs.flatMap escapeChar ++ '"' :: rest) = some (cs, rest) := by
  induction cs with
  | nil => rw [List.flatMap_nil, List.nil_append, readText?, if_pos rfl]
  | cons c cs ih =>
    obtain ⟨d, more, behind, hwritten, hquote, hread, hbehind⟩ :=
      exists_unescape? c (cs.flatMap escapeChar ++ '"' :: rest)
    rw [List.flatMap_cons, List.append_assoc, hwritten, readText?, if_neg hquote, hread,
      Option.bind_some]
    dsimp only
    rw [hbehind, ih, Option.map_some]

/-- **A quoted text is read up to its closing quote.** -/
theorem readText?_quote (s : String) (rest : List Char) :
    ∃ cs, (quote s).toList ++ rest = '"' :: cs ∧ readText? cs = some (s.toList, rest) := by
  refine ⟨s.toList.flatMap escapeChar ++ '"' :: rest, ?_, readText?_flatMap _ _⟩
  simp [quote]

/-- What is left behind a text is shorter than what the text was read from. -/
theorem length_lt_of_readText? {s : List Char} (h : readText? cs = some (s, rest)) :
    rest.length < cs.length := by
  fun_induction readText? cs generalizing s with
  | case1 => exact nomatch h
  | case2 cs =>
    obtain ⟨-, rfl⟩ := Prod.mk.inj (Option.some.inj h)
    exact Nat.lt_succ_self _
  | case3 c cs hc ih =>
    obtain ⟨⟨d, behind⟩, -, hread⟩ := Option.bind_eq_some_iff.mp h
    obtain ⟨⟨t, more⟩, hmore, heq⟩ := Option.map_eq_some_iff.mp hread
    obtain ⟨-, rfl⟩ := Prod.mk.inj heq
    have hlt := ih behind hmore
    rw [List.length_drop] at hlt
    rw [List.length_cons]
    omega

end Text
end Moniker
