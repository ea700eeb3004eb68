import DataCollectionLab.Form.DeviceFunctions
import DataCollectionLab.Form.Functions

/-!
Dates in the two engines. The device counts days by years that begin in March, the reference engine by the
calendar; a text that both read as a date is the same date to both.
-/

namespace DataCollectionLab.Form

open Lib

section Days

open Calendar

def marchYear (d : Ymd) : ℤ := if d.month ≤ 2 then d.year - 1 else d.year

def marchMonth (d : Ymd) : ℤ := if 2 < d.month then d.month - 3 else d.month + 9

def marchDay (d : Ymd) : ℤ := (153 * marchMonth d + 2) / 5 + d.day - 1

theorem ordinal_march {d : Ymd} (valid : Valid d) :
    ordinal d = daysBeforeYear (marchYear d + 1) + marchDay d - 305 := by
  have next := daysBeforeYear_succ d.year
  obtain ⟨january, december, -, -⟩ := valid
  unfold ordinal marchDay marchYear marchMonth
  obtain ⟨year, month, day⟩ := d
  simp only at january december next ⊢
  unfold daysInYear at next
  unfold daysBeforeMonth
  cases leapYear : leap year <;> rw [leapYear] at next <;> interval_cases month <;>
    norm_num [cumulative] at next ⊢ <;> omega

theorem epochDays_eq {d : Ymd} (valid : Valid d) (positive : 0 ≤ d.year) :
    Evaluator.epochDays d = ordinal d - 719163 := by
  obtain ⟨a, b, c, e, is⟩ := cycles (marchYear d + 1)
  have least : -1 ≤ marchYear d := by
    unfold marchYear
    split <;> omega
  have before := is.daysBeforeYear
  obtain ⟨whole, centuries, fours, ones⟩ := is
  have era : marchYear d / 400 = a := by omega
  have device : Evaluator.epochDays d = marchYear d / 400 * 146097 +
      ((marchYear d - marchYear d / 400 * 400) * 365 + (marchYear d - marchYear d / 400 * 400) / 4 -
        (marchYear d - marchYear d / 400 * 400) / 100 + marchDay d) - 719468 := by
    show (if 0 ≤ marchYear d then marchYear d else marchYear d - 399).fdiv 400 * 146097 +
      ((marchYear d - (if 0 ≤ marchYear d then marchYear d else marchYear d - 399).fdiv 400 * 400) * 365 +
        (marchYear d - (if 0 ≤ marchYear d then marchYear d else marchYear d - 399).fdiv 400 * 400) / 4 -
        (marchYear d - (if 0 ≤ marchYear d then marchYear d else marchYear d - 399).fdiv 400 * 400) / 100 +
        marchDay d) - 719468 = _
    have floor : (if 0 ≤ marchYear d then marchYear d else marchYear d - 399) / 400 = marchYear d / 400 := by
      split <;> omega
    rw [Int.fdiv_eq_ediv_of_nonneg _ (by norm_num), floor]
  rw [device, ordinal_march valid, before, era]
  omega

theorem yearOfEra_eq {b c e doy : ℤ} (centuries : 0 ≤ b ∧ b ≤ 3) (fours : 0 ≤ c ∧ c ≤ 24) (ones : 0 ≤ e ∧ e ≤ 3)
    (first : 0 ≤ doy) (last : doy ≤ 365) (leapDay : doy = 365 → e = 3 ∧ (c ≠ 24 ∨ b = 3)) {doe : ℤ}
    (is : doe = 36524 * b + 1461 * c + 365 * e + doy) :
    (doe - doe / 1460 + doe / 36524 - doe / 146096) / 365 = 100 * b + 4 * c + e := by
  have byCentury : doe / 36524 = if doe = 146096 then 4 else b := by
    split <;> omega
  have byEra : doe / 146096 = if doe = 146096 then 1 else 0 := by
    split <;> omega
  have byFour : doe / 1460 = 25 * b + c + (24 * b + c + 365 * e + doy) / 1460 := by omega
  rw [byCentury, byEra, byFour]
  split <;> omega

theorem leapDays_eq {b c e : ℤ} (fours : 0 ≤ c ∧ c ≤ 24) (ones : 0 ≤ e ∧ e ≤ 3) :
    (100 * b + 4 * c + e) / 4 = 25 * b + c ∧ (100 * b + 4 * c + e) / 100 = b := by
  omega

theorem marchDay_spec {d : Ymd} (valid : Valid d) :
    0 ≤ marchDay d ∧ marchDay d ≤ 365 ∧ (marchDay d = 365 → leap (marchYear d + 1) = true) ∧
      (5 * marchDay d + 2) / 153 = marchMonth d ∧
      marchDay d - (153 * marchMonth d + 2) / 5 + 1 = d.day := by
  obtain ⟨january, december, first, last⟩ := valid
  unfold marchDay marchMonth marchYear
  obtain ⟨year, month, day⟩ := d
  simp only at january december first last ⊢
  unfold daysInMonth at last
  cases leapYear : leap year <;> rw [leapYear] at last <;> interval_cases month <;>
    norm_num at last ⊢ <;> refine ⟨by omega, by omega, ?_, by omega⟩ <;> intro full <;> first | exact leapYear | omega

theorem ordinal_bounded {d : Ymd} (valid : Valid d) (positive : 1 ≤ d.year) (bounded : d.year ≤ 9999) :
    0 ≤ ordinal d + 305 ∧ ordinal d < 2 ^ 40 := by
  obtain ⟨a, b, c, e, is⟩ := cycles (marchYear d + 1)
  obtain ⟨dayLow, dayHigh, -⟩ := marchDay_spec valid
  have near : 0 ≤ marchYear d ∧ marchYear d ≤ 9999 := by
    unfold marchYear
    split <;> omega
  rw [ordinal_march valid, is.daysBeforeYear]
  obtain ⟨whole, centuries, fours, ones⟩ := is
  omega

theorem civil_eq {d : Ymd} (valid : Valid d) (low : -306 ≤ ordinal d) (high : ordinal d < 2 ^ 40) :
    Evaluator.civil (ordinal d - 719163) = d := by
  obtain ⟨a, b, c, e, is⟩ := cycles (marchYear d + 1)
  obtain ⟨dayLow, dayHigh, leapDay, month, day⟩ := marchDay_spec valid
  have before := is.daysBeforeYear
  have leaps := is.leap_iff
  have march := ordinal_march valid
  obtain ⟨whole, centuries, fours, ones⟩ := is
  have offset : ordinal d + 305 = a * 146097 + (36524 * b + 1461 * c + 365 * e + marchDay d) := by
    rw [march, before]
    ring
  clear before march
  have z : (Evaluator.long (ordinal d - 719163 + 719468)).toInt = ordinal d + 305 := by
    rw [show ordinal d - 719163 + 719468 = ordinal d + 305 by ring]
    exact Evaluator.toInt_long (inRange_iff.mpr ⟨by linarith, by linarith⟩)
  have era : (if 0 ≤ ordinal d + 305 then ordinal d + 305
      else (Evaluator.long (ordinal d + 305 - 146096)).toInt).fdiv 146097 = a := by
    rw [Int.fdiv_eq_ediv_of_nonneg _ (by norm_num)]
    split
    · omega
    · rw [Evaluator.toInt_long (inRange_iff.mpr ⟨by linarith, by linarith⟩)]
      omega
  have year := @yearOfEra_eq b c e (marchDay d) centuries fours ones dayLow dayHigh
    (fun full => leaps.mp (leapDay full)) (ordinal d + 305 - a * 146097) (by rw [offset]; ring)
  obtain ⟨quarters, hundreds⟩ := @leapDays_eq b c e fours ones
  have doy : ordinal d + 305 - a * 146097 - (365 * (100 * b + 4 * c + e) + (100 * b + 4 * c + e) / 4 -
      (100 * b + 4 * c + e) / 100) = marchDay d := by
    rw [quarters, hundreds, offset]
    ring
  unfold Evaluator.civil
  simp only [z, era, year, doy, month, day]
  clear z era year doy month day quarters hundreds
  have months : (if marchMonth d < 10 then marchMonth d + 3 else marchMonth d - 9) = d.month := by
    have january := valid.january
    have december := valid.december
    unfold marchMonth
    split_ifs <;> omega
  rw [months]
  have years : (if d.month ≤ 2 then 100 * b + 4 * c + e + a * 400 + 1 else 100 * b + 4 * c + e + a * 400) = d.year := by
    unfold marchYear at whole
    split_ifs at whole ⊢ <;> omega
  rw [years]

end Days
section Reading

open Calendar

theorem date_spec {year month day : ℤ} {d : Ymd} (is : Reference.date year month day = some d) :
    d = ⟨year, month, day⟩ ∧ Valid d ∧ 1 ≤ d.year ∧ d.year ≤ 9999 := by
  unfold Reference.date at is
  split at is
  · rename_i bounds
    obtain rfl := Option.some.inj is
    obtain ⟨low, high, january, december, first, last⟩ := bounds
    exact ⟨rfl, ⟨january, december, first, last⟩, low, high⟩
  · cases is

theorem isoWeek_spec {year week day : ℤ} {d : Ymd} (is : Reference.isoWeek year week day = some d) :
    Valid d ∧ 1 ≤ d.year ∧ d.year ≤ 9999 := by
  unfold Reference.isoWeek at is
  dsimp only at is
  split_ifs at is
  exact (date_spec is).2

theorem units_le_bytes (cs : List Char) : (Evaluator.utf16 cs).length ≤ (cs.map Reference.utf8Bytes).sum ∧
    ((Evaluator.utf16 cs).length = (cs.map Reference.utf8Bytes).sum →
      Evaluator.utf16 cs = cs.map Char.toNat) := by
  induction cs with
  | nil => simp [Evaluator.utf16]
  | cons c cs ih =>
    have here : (Evaluator.utf16Units c).length ≤ Reference.utf8Bytes c ∧
        ((Evaluator.utf16Units c).length = Reference.utf8Bytes c → Evaluator.utf16Units c = [c.toNat]) := by
      unfold Evaluator.utf16Units Reference.utf8Bytes
      split_ifs <;> simp <;> omega
    have whole : Evaluator.utf16 (c :: cs) = Evaluator.utf16Units c ++ Evaluator.utf16 cs := rfl
    rw [whole, List.length_append, List.map_cons, List.sum_cons]
    refine ⟨by omega, fun same => ?_⟩
    rw [here.2 (by omega), ih.2 (by omega)]
    rfl

structure IsDigit (unit n : ℕ) : Prop where
  code : unit = 0x30 + n
  small : n ≤ 9

theorem digit_spec {c : Char} {n : ℕ} (is : Numeral.digit c = some n) : c.toNat = 0x30 + n ∧ n ≤ 9 := by
  unfold Numeral.digit at is
  split at is
  · rename_i bounds
    obtain rfl := Option.some.inj is
    have low : 0x30 ≤ c.toNat := bounds.1
    have high : c.toNat ≤ 0x39 := bounds.2
    omega
  · cases is

theorem parseDigits_succ {count : ℕ} {value result : ℤ} {cs rest : List Char}
    (is : Reference.parseDigits (count + 1) value cs = some (result, rest)) :
    ∃ c n cs', cs = c :: cs' ∧ IsDigit c.toNat n ∧
      Reference.parseDigits count (value * 10 + n) cs' = some (result, rest) := by
  cases cs with
  | nil => cases is
  | cons c cs' =>
    rw [Reference.parseDigits] at is
    cases digit : Numeral.digit c with
    | none =>
      rw [digit] at is
      cases is
    | some n =>
      rw [digit] at is
      obtain ⟨code, small⟩ := digit_spec digit
      exact ⟨c, n, cs', rfl, ⟨code, small⟩, is⟩

theorem parseDigits_zero {value result : ℤ} {cs rest : List Char}
    (is : Reference.parseDigits 0 value cs = some (result, rest)) : result = value ∧ rest = cs := by
  rw [Reference.parseDigits] at is
  obtain ⟨rfl, rfl⟩ := Prod.mk.inj (Option.some.inj is)
  exact ⟨rfl, rfl⟩

theorem digitOf_ascii {n : ℕ} (small : n ≤ 9) : Reference.digitOf (0x30 + n) = some n := by
  interval_cases n <;> decide

theorem digitOf_digit {c : Char} (digit : c.isDigit = true) : Reference.digitOf c.toNat = some (c.toNat - 0x30) := by
  have bounds : 48 ≤ c.toNat ∧ c.toNat ≤ 57 := by
    unfold Char.isDigit at digit
    rw [Bool.and_eq_true, decide_eq_true_eq, decide_eq_true_eq] at digit
    exact digit
  have first : (decide (48 ≤ c.toNat) && decide (c.toNat < 48 + 10)) = true := by
    rw [Bool.and_eq_true, decide_eq_true_eq, decide_eq_true_eq]
    omega
  unfold Reference.digitOf Reference.zeros
  rw [List.find?_cons, first]
  rfl

theorem splitDash_single {units : List Nat} (plain : 0x2D ∉ units) : Evaluator.splitDash units = [units] := by
  induction units with
  | nil => rfl
  | cons unit rest ih =>
    have apart : unit ≠ 0x2D := fun same => plain (same ▸ List.mem_cons_self)
    rw [Evaluator.splitDash, if_neg apart, ih fun later => plain (List.mem_cons_of_mem _ later)]

theorem splitDash_append {units rest : List Nat} (plain : 0x2D ∉ units) :
    Evaluator.splitDash (units ++ 0x2D :: rest) = units :: Evaluator.splitDash rest := by
  induction units with
  | nil => rfl
  | cons unit units ih =>
    have apart : unit ≠ 0x2D := fun same => plain (same ▸ List.mem_cons_self)
    rw [List.cons_append, Evaluator.splitDash, if_neg apart, ih fun later => plain (List.mem_cons_of_mem _ later)]

theorem splitDash_head {units rest : List Nat} (plain : 0x2D ∉ units) :
    ∃ tail others, Evaluator.splitDash rest = tail :: others ∧
      Evaluator.splitDash (units ++ rest) = (units ++ tail) :: others := by
  induction units with
  | nil =>
    have some : ∃ tail others, Evaluator.splitDash rest = tail :: others := by
      cases rest with
      | nil => exact ⟨[], [], rfl⟩
      | cons unit rest =>
        rw [Evaluator.splitDash]
        split
        · exact ⟨_, _, rfl⟩
        · split <;> exact ⟨_, _, rfl⟩
    obtain ⟨tail, others, is⟩ := some
    exact ⟨tail, others, is, is⟩
  | cons unit units ih =>
    have apart : unit ≠ 0x2D := fun same => plain (same ▸ List.mem_cons_self)
    obtain ⟨tail, others, is, head⟩ := ih fun later => plain (List.mem_cons_of_mem _ later)
    refine ⟨tail, others, is, ?_⟩
    rw [List.cons_append, Evaluator.splitDash, if_neg apart, head]
    rfl

theorem digitsOrNull_none {units : List Nat} {value : ℤ} {bad : Nat} (member : bad ∈ units)
    (none : Reference.digitOf bad = none) : Evaluator.digitsOrNull value units = .none := by
  induction units generalizing value with
  | nil => exact absurd member List.not_mem_nil
  | cons unit rest ih =>
    rw [Evaluator.digitsOrNull]
    rcases List.mem_cons.mp member with rfl | later
    · rw [none]
      rfl
    · cases Reference.digitOf unit with
      | none => rfl
      | some n => exact ih later

theorem toIntOrNull_none {units : List Nat} {first bad : Nat} (high : 0x30 ≤ first) (member : bad ∈ first :: units)
    (none : Reference.digitOf bad = none) : Evaluator.toIntOrNull (first :: units) = .none := by
  rw [Evaluator.toIntOrNull, if_neg (by omega), digitsOrNull_none member none]
  rfl

theorem digitsOrNull_cons {unit n : ℕ} (digit : Reference.digitOf unit = some n) (value : ℤ) (rest : List Nat) :
    Evaluator.digitsOrNull value (unit :: rest) = Evaluator.digitsOrNull (value * 10 + n) rest := by
  rw [Evaluator.digitsOrNull, digit]
  rfl

theorem IsDigit.digitOf {unit n : ℕ} (is : IsDigit unit n) : Reference.digitOf unit = some n := by
  rw [is.code]
  exact digitOf_ascii is.small

theorem IsDigit.ne_dash {unit n : ℕ} (is : IsDigit unit n) : unit ≠ 0x2D := by
  have code := is.code
  omega

theorem toIntOrNull_digit {unit n : ℕ} (is : IsDigit unit n) (rest : List Nat) :
    Evaluator.toIntOrNull (unit :: rest) = (Evaluator.digitsOrNull n rest).bind Evaluator.int32 := by
  have low : ¬ unit < 0x30 := by
    have code := is.code
    omega
  rw [Evaluator.toIntOrNull, if_neg low, digitsOrNull_cons is.digitOf, zero_mul, zero_add]
  rfl

theorem toIntOrNull_two {u v a b : ℕ} (first : IsDigit u a) (second : IsDigit v b) :
    Evaluator.toIntOrNull [u, v] = some ((a : ℤ) * 10 + b) := by
  have smallA := first.small
  have smallB := second.small
  rw [toIntOrNull_digit first, digitsOrNull_cons second.digitOf, Evaluator.digitsOrNull, Option.bind_some,
    Evaluator.int32, if_pos (by omega)]

theorem toIntOrNull_four {u v w x a b c d : ℕ} (first : IsDigit u a) (second : IsDigit v b) (third : IsDigit w c)
    (fourth : IsDigit x d) : Evaluator.toIntOrNull [u, v, w, x] = some ((((a : ℤ) * 10 + b) * 10 + c) * 10 + d) := by
  have smallA := first.small
  have smallB := second.small
  have smallC := third.small
  have smallD := fourth.small
  rw [toIntOrNull_digit first, digitsOrNull_cons second.digitOf, digitsOrNull_cons third.digitOf,
    digitsOrNull_cons fourth.digitOf, Evaluator.digitsOrNull, Option.bind_some, Evaluator.int32, if_pos (by omega)]

theorem parseOrNull_parts {units y m d : List Nat} {found : Ymd} (is : Evaluator.parseOrNull units = some found)
    (parts : Evaluator.splitDash (units.take 10) = [y, m, d]) :
    ∃ year month day, Evaluator.toIntOrNull y = some year ∧ Evaluator.toIntOrNull m = some month ∧
      Evaluator.toIntOrNull d = some day ∧ found = ⟨year, month, day⟩ := by
  unfold Evaluator.parseOrNull at is
  rw [parts] at is
  split at is
  · cases is
  · cases year : Evaluator.toIntOrNull y with
    | none =>
      simp [year] at is
    | some year =>
      cases month : Evaluator.toIntOrNull m with
      | none => simp [year, month] at is
      | some month =>
        cases day : Evaluator.toIntOrNull d with
        | none => simp [year, month, day] at is
        | some day =>
          simp only [year, month, day, Option.bind_eq_bind, Option.bind_some] at is
          split at is
          · cases is
          · exact ⟨_, _, _, rfl, rfl, rfl, (Option.some.inj is).symm⟩

theorem parseOrNull_three {units : List Nat} {found : Ymd} (is : Evaluator.parseOrNull units = some found) :
    10 ≤ units.length ∧ ∃ y m d, Evaluator.splitDash (units.take 10) = [y, m, d] := by
  unfold Evaluator.parseOrNull at is
  split at is
  · cases is
  · refine ⟨by omega, ?_⟩
    split at is
    · exact ⟨_, _, _, by assumption⟩
    · cases is

theorem fromisoformat_bytes {cs : List Char} {d : Ymd} (is : Reference.fromisoformat cs = some d) :
    (cs.map Reference.utf8Bytes).sum ≤ 10 := by
  unfold Reference.fromisoformat at is
  dsimp only at is
  split at is
  · cases is
  · omega

theorem fromisoformat_year {cs : List Char} {d : Ymd} (is : Reference.fromisoformat cs = some d) :
    ∃ c0 c1 c2 c3 rest a b c e, cs = c0 :: c1 :: c2 :: c3 :: rest ∧ IsDigit c0.toNat a ∧ IsDigit c1.toNat b ∧
      IsDigit c2.toNat c ∧ IsDigit c3.toNat e ∧
      Reference.parseDigits 4 0 cs = some ((((a : ℤ) * 10 + b) * 10 + c) * 10 + e, rest) := by
  unfold Reference.fromisoformat at is
  dsimp only at is
  split at is
  · cases is
  · cases year : Reference.parseDigits 4 0 cs with
    | none =>
      rw [year] at is
      cases is
    | some found =>
      obtain ⟨value, rest⟩ := found
      obtain ⟨c0, a, cs0, rfl, digit0, step0⟩ := parseDigits_succ year
      obtain ⟨c1, b, cs1, rfl, digit1, step1⟩ := parseDigits_succ step0
      obtain ⟨c2, c, cs2, rfl, digit2, step2⟩ := parseDigits_succ step1
      obtain ⟨c3, e, cs3, rfl, digit3, step3⟩ := parseDigits_succ step2
      obtain ⟨rfl, rfl⟩ := parseDigits_zero step3
      refine ⟨c0, c1, c2, c3, rest, a, b, c, e, rfl, digit0, digit1, digit2, digit3, ?_⟩
      rw [zero_mul, zero_add]

theorem fromisoformat_rest {cs rest : List Char} {year : ℤ} {d : Ymd} (is : Reference.fromisoformat cs = some d)
    (first : Reference.parseDigits 4 0 cs = some (year, rest)) :
    (∃ later, rest = 'W' :: later ∨ rest = '-' :: 'W' :: later) ∨
      (∃ month later, rest.head? ≠ some '-' ∧ Reference.parseDigits 2 0 rest = some (month, later) ∧
        ∃ day last, Reference.parseDigits 2 0 later = some (day, last)) ∨
      ∃ more month later, rest = '-' :: more ∧ Reference.parseDigits 2 0 more = some (month, '-' :: later) ∧
        ∃ day last, Reference.parseDigits 2 0 later = some (day, last) ∧ d = ⟨year, month, day⟩ := by
  unfold Reference.fromisoformat at is
  dsimp only at is
  split at is
  · cases is
  simp only [first, Option.bind_eq_bind, Option.bind_some] at is
  split at is
  · rename_i later shape
    refine Or.inl ⟨later, ?_⟩
    by_cases dashed : rest.head? = some '-'
    · rw [if_pos dashed] at shape
      obtain ⟨more, rfl⟩ : ∃ more, rest = '-' :: more := by
        cases rest <;> simp_all
      exact Or.inr (congrArg _ shape)
    · rw [if_neg dashed] at shape
      exact Or.inl shape
  · refine Or.inr ?_
    by_cases dashed : rest.head? = some '-'
    · obtain ⟨more, rfl⟩ : ∃ more, rest = '-' :: more := by
        cases rest <;> simp_all
      simp only [dashed, if_true, List.tail_cons, decide_true] at is
      cases months : Reference.parseDigits 2 0 more with
      | none => simp [months] at is
      | some found =>
        obtain ⟨month, later⟩ := found
        simp only [months, Option.bind_some] at is
        cases later with
        | nil => simp [Reference.separator] at is
        | cons mark later =>
          by_cases dash : mark = '-'
          · subst dash
            simp only [Reference.separator, if_true, Option.bind_some] at is
            cases days : Reference.parseDigits 2 0 later with
            | none => simp [days] at is
            | some found =>
              obtain ⟨day, last⟩ := found
              simp only [days, Option.bind_some] at is
              exact Or.inr ⟨more, month, later, rfl, months, day, last, days, (date_spec is).1⟩
          · have missing : Reference.separator true (mark :: later) = none := by
              unfold Reference.separator
              split
              · rename_i same
                exact absurd (List.cons.inj same).1 dash
              · rfl
            simp [missing] at is
    · simp only [dashed, if_false, decide_false] at is
      cases months : Reference.parseDigits 2 0 rest with
      | none => simp [months] at is
      | some found =>
        obtain ⟨month, later⟩ := found
        simp only [months, Option.bind_some] at is
        have same : Reference.separator false later = some later := by
          unfold Reference.separator
          split <;> rfl
        simp only [same, Option.bind_some] at is
        cases days : Reference.parseDigits 2 0 later with
        | none => simp [days] at is
        | some found =>
          obtain ⟨day, last⟩ := found
          exact Or.inl ⟨month, later, dashed, rfl, day, last, days⟩

theorem reading_unique {cs : List Char} {d d' : Ymd} (reference : Reference.fromisoformat cs = some d)
    (device : Evaluator.parseOrNull (Evaluator.utf16 cs) = some d') : d' = d := by
  obtain ⟨long, y, m, e, parts⟩ := parseOrNull_three device
  have short := fromisoformat_bytes reference
  obtain ⟨units, ascii⟩ := units_le_bytes cs
  have codes := ascii (by omega)
  have ten : cs.length = 10 := by
    rw [codes, List.length_map] at units long
    omega
  obtain ⟨year, month, day, isYear, isMonth, isDay, rfl⟩ := parseOrNull_parts device parts
  obtain ⟨c0, c1, c2, c3, rest, n0, n1, n2, n3, rfl, digit0, digit1, digit2, digit3, first⟩ :=
    fromisoformat_year reference
  rw [codes, List.take_of_length_le (by rw [List.length_map]; omega)] at parts
  have plain : 0x2D ∉ [c0.toNat, c1.toNat, c2.toNat, c3.toNat] := by
    simp [digit0.ne_dash.symm, digit1.ne_dash.symm, digit2.ne_dash.symm, digit3.ne_dash.symm]
  have letter : Reference.digitOf 0x57 = none := by decide
  have high : 0x30 ≤ c0.toNat := by
    have code := digit0.code
    omega
  rcases fromisoformat_rest reference first with
    ⟨later, rfl | rfl⟩ | ⟨month', later, -, months, day', last, days⟩ |
    ⟨more, month', later, rfl, months, day', last, days, rfl⟩
  · -- A week without dashes: the letter falls into the year.
    obtain ⟨tail, others, -, head⟩ := @splitDash_head [c0.toNat, c1.toNat, c2.toNat, c3.toNat, 0x57]
      (later.map Char.toNat) (by simpa using plain)
    have whole : y = [c0.toNat, c1.toNat, c2.toNat, c3.toNat, 0x57] ++ tail := by
      have same := head.symm.trans parts
      exact (List.cons.inj same).1.symm
    rw [whole, List.cons_append, toIntOrNull_none high (by simp) letter] at isYear
    cases isYear
  · obtain ⟨tail, others, -, head⟩ := @splitDash_head [0x57] (later.map Char.toNat) (by decide)
    have split := @splitDash_append _ (0x57 :: later.map Char.toNat) plain
    have whole : m = 0x57 :: tail := by
      have same := split.symm.trans parts
      rw [show (0x57 :: later.map Char.toNat) = [0x57] ++ later.map Char.toNat from rfl, head] at same
      exact (List.cons.inj (List.cons.inj same).2).1.symm
    rw [whole, toIntOrNull_none (by norm_num) List.mem_cons_self letter] at isMonth
    cases isMonth
  · -- Eight digits in a row leave no room for two parts with something in them.
    obtain ⟨c4, n4, cs4, rfl, digit4, step4⟩ := parseDigits_succ months
    obtain ⟨c5, n5, cs5, rfl, digit5, step5⟩ := parseDigits_succ step4
    obtain ⟨-, rfl⟩ := parseDigits_zero step5
    obtain ⟨c6, n6, cs6, rfl, digit6, step6⟩ := parseDigits_succ days
    obtain ⟨c7, n7, cs7, rfl, digit7, step7⟩ := parseDigits_succ step6
    obtain ⟨u, v, rfl⟩ : ∃ u v, cs7 = [u, v] := by
      rw [← List.length_eq_two]
      simp only [List.length_cons] at ten
      omega
    have plain8 : 0x2D ∉ [c0.toNat, c1.toNat, c2.toNat, c3.toNat, c4.toNat, c5.toNat, c6.toNat, c7.toNat] := by
      simp [digit0.ne_dash.symm, digit1.ne_dash.symm, digit2.ne_dash.symm, digit3.ne_dash.symm,
        digit4.ne_dash.symm, digit5.ne_dash.symm, digit6.ne_dash.symm, digit7.ne_dash.symm]
    obtain ⟨tail, others, rest2, head⟩ := @splitDash_head _ [u.toNat, v.toNat] plain8
    have two : others = [m, e] := (List.cons.inj (head.symm.trans parts)).2
    subst two
    have empty : m = [] := by
      simp only [Evaluator.splitDash] at rest2
      split_ifs at rest2 <;> simp at rest2
      exact rest2.2.1
    rw [empty] at isMonth
    cases isMonth
  · obtain ⟨c4, n4, cs4, rfl, digit4, step4⟩ := parseDigits_succ months
    obtain ⟨c5, n5, cs5, rfl, digit5, step5⟩ := parseDigits_succ step4
    obtain ⟨rfl, rest5⟩ := parseDigits_zero step5
    obtain ⟨c6, n6, cs6, rfl, digit6, step6⟩ := parseDigits_succ days
    obtain ⟨c7, n7, cs7, rfl, digit7, step7⟩ := parseDigits_succ step6
    obtain ⟨rfl, rest7⟩ := parseDigits_zero step7
    subst rest5
    have none : cs7 = [] := by
      rw [← List.length_eq_zero_iff]
      simp only [List.length_cons] at ten
      omega
    subst none
    have plain2 : 0x2D ∉ [c4.toNat, c5.toNat] := by simp [digit4.ne_dash.symm, digit5.ne_dash.symm]
    have plain3 : 0x2D ∉ [c6.toNat, c7.toNat] := by simp [digit6.ne_dash.symm, digit7.ne_dash.symm]
    have split := @splitDash_append _ ([c4.toNat, c5.toNat] ++ 0x2D :: [c6.toNat, c7.toNat]) plain
    rw [splitDash_append plain2, splitDash_single plain3] at split
    have same := split.symm.trans parts
    obtain ⟨rfl, rfl, rfl⟩ : y = _ ∧ m = _ ∧ e = _ := by
      simp only [List.cons.injEq, and_true] at same
      exact ⟨same.1.symm, same.2.1.symm, same.2.2.symm⟩
    rw [toIntOrNull_four digit0 digit1 digit2 digit3] at isYear
    rw [toIntOrNull_two digit4 digit5] at isMonth
    rw [toIntOrNull_two digit6 digit7] at isDay
    obtain rfl := Option.some.inj isYear
    obtain rfl := Option.some.inj isMonth
    obtain rfl := Option.some.inj isDay
    simp

end Reading
end DataCollectionLab.Form
