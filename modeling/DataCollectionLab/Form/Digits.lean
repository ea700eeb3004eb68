import DataCollectionLab.Form.Numerals
import Mathlib.Tactic.Ring
import Mathlib.Tactic.NormNum

/-! How the decimal text of a number reads, in both languages. -/

namespace DataCollectionLab.Form

open Lib

namespace Numeral

theorem bounds {c : Char} (decimal : c.isDigit = true) : 0x30 ≤ c.toNat ∧ c.toNat ≤ 0x39 := Char.isDigit_iff_toNat.mp decimal

theorem digit_eq {c : Char} (decimal : c.isDigit = true) : digit c = some (c.toNat - 0x30) := by
  obtain ⟨low, high⟩ := bounds decimal
  exact if_pos ⟨low, high⟩

theorem digits_append {cs rest : List Char} (decimal : ∀ c ∈ cs, c.isDigit = true) (stops : ∀ c ∈ rest.head?, digit c = none) :
    digits digit (cs ++ rest) = (cs.map (·.toNat - 0x30), rest) := by
  induction cs with
  | nil =>
    cases rest with
    | nil => rfl
    | cons c rest =>
      have none := stops c rfl
      rw [List.nil_append, digits, none]
      rfl
  | cons c cs ih =>
    have here := digit_eq (decimal c List.mem_cons_self)
    rw [List.cons_append, digits, here, ih fun d member => decimal d (List.mem_cons_of_mem _ member)]
    rfl

theorem natOfDigits_eq (cs : List Char) : natOfDigits 10 (cs.map (·.toNat - 0x30)) = Nat.ofDigitChars 10 cs 0 := by
  have fold : ∀ n, (cs.map (·.toNat - 0x30)).foldl (fun n d => n * 10 + d) n = Nat.ofDigitChars 10 cs n := by
    induction cs with
    | nil => exact fun n => rfl
    | cons c cs ih =>
      intro n
      rw [List.map_cons, List.foldl_cons, ih, Nat.ofDigitChars_cons, Nat.mul_comm]
      rfl
  exact fold 0

theorem unsigned_digits {cs : List Char} (some : cs ≠ []) (decimal : ∀ c ∈ cs, c.isDigit = true) :
    unsigned cs = Option.some ((Nat.ofDigitChars 10 cs 0 : ℚ), []) := by
  have read := @digits_append cs [] decimal (by simp)
  rw [List.append_nil] at read
  unfold unsigned significand
  simp only [read, List.map_eq_nil_iff, some, false_and, ↓reduceIte]
  simp [natOfDigits_eq]

theorem unsigned_scaled {cs es : List Char} (some : cs ≠ []) (decimal : ∀ c ∈ cs, c.isDigit = true) (places : es ≠ [])
    (power : ∀ c ∈ es, c.isDigit = true) :
    unsigned (cs ++ 'e' :: '-' :: es) =
      Option.some ((Nat.ofDigitChars 10 cs 0 : ℚ) * 10 ^ (-(Nat.ofDigitChars 10 es 0 : ℤ)), []) := by
  have mark : ∀ c ∈ ('e' :: '-' :: es).head?, digit c = none := by
    intro c first
    obtain rfl : 'e' = c := by simpa using first
    decide
  have whole := digits_append decimal mark
  have tail := @digits_append es [] power (by simp)
  rw [List.append_nil] at tail
  have scale : exponent ('-' :: es) = Option.some (-(Nat.ofDigitChars 10 es 0 : ℤ), []) := by
    unfold exponent
    simp only [sign, tail, List.map_eq_nil_iff, places, ↓reduceIte, natOfDigits_eq]
  unfold unsigned significand
  simp only [whole, List.map_eq_nil_iff, some, false_and, ↓reduceIte]
  simp [scale, natOfDigits_eq]

def Plain (c : Char) : Prop := 0x21 ≤ c.toNat ∧ c.toNat < 0x7F ∧ c ≠ '_'

instance : DecidablePred Plain := fun c => inferInstanceAs (Decidable (0x21 ≤ c.toNat ∧ c.toNat < 0x7F ∧ c ≠ '_'))

theorem plain_all {cs : List Char} (all : (cs.all fun c => decide (Plain c)) = true) : ∀ c ∈ cs, Plain c :=
  fun c member => of_decide_eq_true (List.all_eq_true.mp all c member)

theorem plain_digit {c : Char} (decimal : c.isDigit = true) : Plain c := by
  obtain ⟨low, high⟩ := bounds decimal
  refine ⟨by omega, by omega, ?_⟩
  rintro rfl
  exact absurd decimal (by decide)

theorem toList_toString (n : ℤ) :
    (toString n).toList = (if n < 0 then ['-'] else []) ++ Nat.toDigits 10 n.natAbs := by
  cases n with
  | ofNat m =>
    show (Nat.repr m).toList = _
    rw [if_neg (by simp)]
    exact Nat.toList_repr
  | negSucc m =>
    show ("-" ++ Nat.repr (m + 1)).toList = _
    rw [String.toList_append, Nat.toList_repr, if_pos (Int.negSucc_lt_zero m)]
    rfl

theorem toDigits_decimal {n : ℕ} : ∀ c ∈ Nat.toDigits 10 n, c.isDigit = true :=
  fun _ member => Nat.isDigit_of_mem_toDigits (by decide) (by decide) member

theorem sign_decimal {c : Char} {cs : List Char} (decimal : c.isDigit = true) : sign (c :: cs) = (false, c :: cs) := by
  unfold sign
  split
  · rename_i same
    cases same
    exact absurd decimal (by decide)
  · rename_i same
    cases same
    exact absurd decimal (by decide)
  · rfl

theorem plain_toString (n : ℤ) : ∀ c ∈ (toString n).toList, Plain c := by
  intro c member
  rw [toList_toString] at member
  rcases List.mem_append.mp member with minus | decimal
  · split at minus
    · obtain rfl := List.mem_singleton.mp minus
      exact ⟨by decide, by decide, by decide⟩
    · cases minus
  · exact plain_digit (toDigits_decimal c decimal)

theorem sign_toString (n : ℤ) (rest : List Char) :
    sign ((toString n).toList ++ rest) = (decide (n < 0), Nat.toDigits 10 n.natAbs ++ rest) := by
  rw [toList_toString]
  by_cases negative : n < 0
  · rw [if_pos negative, decide_eq_true negative]
    rfl
  · rw [if_neg negative, decide_eq_false negative, List.nil_append]
    cases digits : Nat.toDigits 10 n.natAbs with
    | nil => exact absurd digits Nat.toDigits_ne_nil
    | cons c cs =>
      apply sign_decimal
      exact toDigits_decimal c (by rw [digits]; exact List.mem_cons_self)

theorem signed_natAbs (n : ℤ) (scale : ℚ) : signed (decide (n < 0)) ((n.natAbs : ℚ) * scale) = n * scale := by
  have size : ((n.natAbs : ℤ) : ℚ) = (n.natAbs : ℚ) := Int.cast_natCast _
  unfold signed
  by_cases negative : n < 0
  · rw [decide_eq_true negative, if_pos rfl, ← size, Int.ofNat_natAbs_of_nonpos negative.le, Int.cast_neg, neg_mul, neg_neg]
  · rw [decide_eq_false negative, if_neg (by simp), ← size, Int.natAbs_of_nonneg (by omega)]

theorem decimal_toString (n : ℤ) : decimal (toString n).toList = some (n : ℚ) := by
  have read := unsigned_digits (@Nat.toDigits_ne_nil n.natAbs 10) toDigits_decimal
  have signs := sign_toString n []
  rw [List.append_nil, List.append_nil] at signs
  unfold decimal
  rw [signs, read, Nat.ofDigitChars_ten_toDigits]
  simpa using signed_natAbs n 1

theorem decimal_scaled (n : ℤ) {es : List Char} (places : es ≠ []) (power : ∀ c ∈ es, c.isDigit = true) :
    decimal ((toString n).toList ++ 'e' :: '-' :: es) = some ((n : ℚ) * 10 ^ (-(Nat.ofDigitChars 10 es 0 : ℤ))) := by
  have read := unsigned_scaled (@Nat.toDigits_ne_nil n.natAbs 10) toDigits_decimal places power
  unfold decimal
  rw [sign_toString, read, Nat.ofDigitChars_ten_toDigits]
  exact congrArg some (signed_natAbs n _)

end Numeral

namespace Reference

theorem isSpace_plain {c : Char} (plain : Numeral.Plain c) : isSpace c = false := by
  obtain ⟨low, high, -⟩ := plain
  simp only [isSpace, Bool.or_eq_false_iff, Bool.and_eq_false_iff, decide_eq_false_iff_not]
  omega

theorem strip_plain {cs : List Char} (plain : ∀ c ∈ cs, Numeral.Plain c) : strip cs = cs := by
  have kept : ∀ l : List Char, (∀ c ∈ l, Numeral.Plain c) → l.dropWhile isSpace = l := by
    intro l plain
    cases l with
    | nil => rfl
    | cons c l => rw [List.dropWhile_cons, isSpace_plain (plain c List.mem_cons_self), if_neg (by simp)]
  rw [strip, kept cs plain, kept cs.reverse fun c member => plain c (List.mem_reverse.mp member), List.reverse_reverse]

theorem toAscii_ascii : ∀ n < 0x7F, toAscii (Char.ofNat n) = Char.ofNat n := by decide +kernel

theorem toAscii_plain {c : Char} (plain : Numeral.Plain c) : toAscii c = c := by
  have same := toAscii_ascii c.toNat plain.2.1
  rwa [Char.ofNat_toNat] at same

theorem dropUnderscores_plain {cs : List Char} (plain : ∀ c ∈ cs, Numeral.Plain c) {previous : Char}
    (apart : previous ≠ '_') : dropUnderscores previous cs = some cs := by
  induction cs generalizing previous with
  | nil => exact if_neg apart
  | cons c cs ih =>
    have here := (plain c List.mem_cons_self).2.2
    rw [dropUnderscores, if_neg here, if_neg fun both => apart both.1,
      ih (fun d member => plain d (List.mem_cons_of_mem _ member)) here]
    rfl

theorem float_plain {text : String} (plain : ∀ c ∈ text.toList, Numeral.Plain c) {q : ℚ}
    (denotes : Numeral.decimal text.toList = some q) : float text = some (.round q) := by
  have ascii : text.toList.map toAscii = text.toList := by
    rw [List.map_congr_left fun c member => toAscii_plain (plain c member), List.map_id']
  unfold float
  rw [strip_plain plain, ascii, dropUnderscores_plain plain (by decide)]
  simp only [Option.bind_eq_bind, Option.bind_some, denotes]
  rfl

theorem float_toString (n : ℤ) : float (toString n) = some (.ofInt n) :=
  float_plain (Numeral.plain_toString n) (Numeral.decimal_toString n)

end Reference

end DataCollectionLab.Form
