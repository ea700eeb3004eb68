import DataCollectionLab.Form.FunctionAgreement

/-!
Day numbers and dates on the phone, there and back. The phone writes the day after for the first 59 days of the
year 0, where it takes the era below the one the day lies in.
-/

namespace DataCollectionLab.Form

open Lib Calendar

section Days

def BeforeEra (d : Ymd) : Prop := d.year = 0 ∧ (d.month = 1 ∨ d.month = 2 ∧ d.day ≤ 28)

def dayAfter (d : Ymd) : Ymd :=
  if d.day < daysInMonth d.year d.month then ⟨d.year, d.month, d.day + 1⟩
  else if d.month < 12 then ⟨d.year, d.month + 1, 1⟩
  else ⟨d.year + 1, 1, 1⟩

def Supported (n : ℤ) : Prop :=
  Evaluator.epochDays ⟨0, 1, 1⟩ ≤ n ∧ n ≤ Evaluator.epochDays ⟨999999, 12, 31⟩

theorem dayAfter_valid {d : Ymd} (valid : Valid d) : Valid (dayAfter d) := by
  obtain ⟨january, december, first, last⟩ := valid
  have least (month : ℤ) : 1 ≤ daysInMonth d.year month := by
    unfold daysInMonth
    split_ifs <;> omega
  unfold dayAfter
  split_ifs with within early
  · exact ⟨january, december, by dsimp only; omega, by dsimp only; omega⟩
  · exact ⟨by dsimp only; omega, by dsimp only; omega, le_refl 1, least _⟩
  · exact ⟨le_refl 1, by norm_num, le_refl 1, by norm_num [daysInMonth]⟩

theorem ordinal_dayAfter {d : Ymd} (valid : Valid d) : ordinal (dayAfter d) = ordinal d + 1 := by
  obtain ⟨january, december, first, last⟩ := valid
  unfold dayAfter
  split_ifs with within early
  · simp only [ordinal]
    ring
  · have next := @daysBeforeMonth_succ d.year d.month january (by omega)
    simp only [ordinal]
    omega
  · have full : d.month = 12 := by omega
    have days := daysBeforeMonth_december d.year
    have next := daysBeforeYear_succ d.year
    rw [full] at last within
    have start : daysBeforeMonth (d.year + 1) 1 = 0 := by norm_num [daysBeforeMonth, cumulative]
    simp only [ordinal, full, start]
    omega

theorem year_dayAfter {d : Ymd} : d.year ≤ (dayAfter d).year := by
  unfold dayAfter
  split_ifs <;> simp

theorem ordinal_year {d : Ymd} (valid : Valid d) :
    daysBeforeYear d.year < ordinal d ∧ ordinal d ≤ daysBeforeYear (d.year + 1) := by
  have next := daysBeforeYear_succ d.year
  obtain ⟨january, december, first, last⟩ := valid
  unfold ordinal
  obtain ⟨year, month, day⟩ := d
  simp only at january december first last next ⊢
  unfold daysInMonth at last
  unfold daysInYear at next
  unfold daysBeforeMonth
  cases leapYear : leap year <;> rw [leapYear] at next last <;> interval_cases month <;>
    norm_num [cumulative] at next last ⊢ <;> omega

theorem year_le_iff {d : Ymd} (valid : Valid d) (year : ℤ) : d.year ≤ year ↔ ordinal d ≤ daysBeforeYear (year + 1) := by
  obtain ⟨after, before⟩ := ordinal_year valid
  unfold daysBeforeYear at after before ⊢
  omega

theorem beforeEra_iff {d : Ymd} (valid : Valid d) (positive : 0 ≤ d.year) : BeforeEra d ↔ ordinal d ≤ -307 := by
  have early := year_le_iff valid 0
  obtain ⟨january, december, first, last⟩ := valid
  have bound : daysBeforeYear (0 + 1) = 0 := by decide
  rw [bound] at early
  constructor
  · rintro ⟨year, first | ⟨second, short⟩⟩
    · rw [ordinal, year, first, show daysBeforeYear 0 = -366 by decide, show daysBeforeMonth 0 1 = 0 by decide]
      rw [year, first, show daysInMonth 0 1 = 31 by decide] at last
      omega
    · rw [ordinal, year, second, show daysBeforeYear 0 = -366 by decide, show daysBeforeMonth 0 2 = 31 by decide]
      omega
  · intro low
    have year : d.year = 0 := by omega
    refine ⟨year, ?_⟩
    rw [ordinal, year, show daysBeforeYear 0 = -366 by decide] at low
    obtain ⟨_, month, day⟩ := d
    simp only at january december first last low ⊢
    unfold daysBeforeMonth at low
    rw [show leap 0 = true by decide] at low
    interval_cases month <;> norm_num [cumulative] at low ⊢ <;> omega

theorem civil_beforeEra {d : Ymd} (valid : Valid d) (before : BeforeEra d) :
    Evaluator.civil (ordinal d - 719163) = dayAfter d := by
  obtain ⟨year, early⟩ := before
  obtain ⟨january, december, first, last⟩ := valid
  obtain ⟨_, month, day⟩ := d
  simp only at year early january december first last ⊢
  subst year
  have within : day ≤ 31 := by
    rcases early with rfl | ⟨rfl, short⟩
    · exact last
    · omega
  rcases early with rfl | ⟨rfl, short⟩
  · interval_cases day <;> decide
  · interval_cases day <;> decide

end Days

section Accepted

theorem splitDash_plain {units part : List Nat} (member : part ∈ Evaluator.splitDash units) : 0x2D ∉ part := by
  induction units generalizing part with
  | nil =>
    obtain rfl := List.mem_singleton.mp member
    exact List.not_mem_nil
  | cons unit rest ih =>
    rw [Evaluator.splitDash] at member
    split at member
    · rcases List.mem_cons.mp member with rfl | later
      · exact List.not_mem_nil
      · exact ih later
    · rename_i apart
      split at member
      · rename_i first others parts
        rw [parts] at ih
        rcases List.mem_cons.mp member with rfl | later
        · intro dash
          rcases List.mem_cons.mp dash with same | within
          · exact apart same.symm
          · exact ih List.mem_cons_self within
        · exact ih (List.mem_cons_of_mem _ later)
      · obtain rfl := List.mem_singleton.mp member
        simpa using fun same => apart same.symm

theorem digitsOrNull_nonneg {value n : ℤ} (nonneg : 0 ≤ value) {units : List Nat}
    (is : Evaluator.digitsOrNull value units = some n) : 0 ≤ n := by
  induction units generalizing value with
  | nil =>
    obtain rfl := Option.some.inj is
    exact nonneg
  | cons unit rest ih =>
    rw [Evaluator.digitsOrNull] at is
    obtain ⟨digit, -, is⟩ := Option.bind_eq_some_iff.mp is
    exact ih (by omega) is

theorem int32_spec {m n : ℤ} (is : Evaluator.int32 m = some n) : n = m ∧ n < 2 ^ 31 := by
  unfold Evaluator.int32 at is
  split at is
  · rename_i bounds
    obtain rfl := Option.some.inj is
    exact ⟨rfl, bounds.2⟩
  · cases is

theorem toIntOrNull_nonneg {units : List Nat} (plain : 0x2D ∉ units) {n : ℤ} (is : Evaluator.toIntOrNull units = some n) :
    0 ≤ n ∧ n < 2 ^ 31 := by
  have read {value m : ℤ} {rest : List Nat} (nonneg : 0 ≤ value)
      (found : (Evaluator.digitsOrNull value rest).bind Evaluator.int32 = some m) : 0 ≤ m ∧ m < 2 ^ 31 := by
    obtain ⟨k, digits, fits⟩ := Option.bind_eq_some_iff.mp found
    obtain ⟨rfl, small⟩ := int32_spec fits
    exact ⟨digitsOrNull_nonneg nonneg digits, small⟩
  cases units with
  | nil => cases is
  | cons unit rest =>
    rw [Evaluator.toIntOrNull] at is
    split_ifs at is with _ _ dash _
    · exact absurd (dash ▸ List.mem_cons_self) plain
    · exact read (le_refl 0) is
    · exact read (le_refl 0) is

theorem parseOrNull_spec {units : List Nat} {d : Ymd} (is : Evaluator.parseOrNull units = some d) :
    Valid d ∧ 0 ≤ d.year ∧ d.year < 2 ^ 31 := by
  obtain ⟨-, y, m, d', parts⟩ := parseOrNull_three is
  have calendar := is
  unfold Evaluator.parseOrNull at calendar
  obtain ⟨year, month, day, isYear, isMonth, isDay, rfl⟩ := parseOrNull_parts is parts
  have plain : 0x2D ∉ y := splitDash_plain (parts ▸ List.mem_cons_self)
  obtain ⟨nonneg, small⟩ := toIntOrNull_nonneg plain isYear
  rw [parts] at calendar
  simp only [isYear, isMonth, isDay, Option.bind_eq_bind, Option.bind_some] at calendar
  split_ifs at calendar with short bad
  push Not at bad
  exact ⟨⟨bad.1, bad.2.1, bad.2.2.1, bad.2.2.2⟩, nonneg, small⟩

theorem isoDate_spec {a : Value} {d : Ymd} (is : Evaluator.isoDate a = some d) : Valid d ∧ 0 ≤ d.year ∧ d.year < 2 ^ 31 := by
  cases a <;> first | exact parseOrNull_spec is | cases is

theorem ordinal_small {d : Ymd} (valid : Valid d) (positive : 0 ≤ d.year) (small : d.year < 2 ^ 31) :
    -366 < ordinal d ∧ ordinal d < 2 ^ 40 := by
  obtain ⟨after, before⟩ := ordinal_year valid
  unfold daysBeforeYear at after before
  omega

end Accepted

section Written

theorem digit_bounds {c : Char} (digit : c.isDigit = true) : 48 ≤ c.toNat ∧ c.toNat ≤ 57 :=
  Char.isDigit_iff_toNat.mp digit

theorem utf16_ascii {cs : List Char} (digits : ∀ c ∈ cs, c.isDigit = true ∨ c = '-') :
    Evaluator.utf16 cs = cs.map Char.toNat := by
  induction cs with
  | nil => rfl
  | cons c cs ih =>
    have small : c.toNat < 0x10000 := by
      rcases digits c List.mem_cons_self with digit | rfl
      · have bounds := digit_bounds digit
        omega
      · decide
    rw [Evaluator.utf16, List.flatMap_cons, Evaluator.utf16Units, if_pos small, List.map_cons]
    exact congrArg (c.toNat :: ·) (ih fun d member => digits d (List.mem_cons_of_mem _ member))

theorem isDigit_of_char {c : Char} (digit : c.isDigit = true) : IsDigit c.toNat (c.toNat - '0'.toNat) := by
  have bounds := digit_bounds digit
  rw [show '0'.toNat = 48 from rfl]
  exact ⟨by omega, by omega⟩

theorem digitsOrNull_digits {cs : List Char} (digits : ∀ c ∈ cs, c.isDigit = true) (value : ℕ) :
    Evaluator.digitsOrNull value (cs.map Char.toNat) = some (Nat.ofDigitChars 10 cs value : ℤ) := by
  induction cs generalizing value with
  | nil => rfl
  | cons c cs ih =>
    have here := (isDigit_of_char (digits c List.mem_cons_self)).digitOf
    rw [List.map_cons, digitsOrNull_cons here, Nat.ofDigitChars_cons,
      ← ih (fun d member => digits d (List.mem_cons_of_mem _ member))]
    congr 1
    push_cast
    ring

theorem padded_spec {width : ℕ} {n : ℤ} (places : 0 < width) (nonneg : 0 ≤ n) (below : n < 10 ^ width) :
    (Reference.padded width n).length = width ∧ (∀ c ∈ Reference.padded width n, c.isDigit = true) ∧
      (Nat.ofDigitChars 10 (Reference.padded width n) 0 : ℤ) = n := by
  obtain ⟨m, rfl⟩ := Int.eq_ofNat_of_zero_le nonneg
  have text : (toString (m : ℤ)).toList = Nat.toDigits 10 m := by
    show (Nat.repr m).toList = _
    exact Nat.toList_repr
  have fits : (Nat.toDigits 10 m).length ≤ width :=
    (Nat.length_toDigits_le_iff (by norm_num) places).mpr (by exact_mod_cast below)
  unfold Reference.padded
  rw [text]
  refine ⟨?_, ?_, ?_⟩
  · rw [List.length_append, List.length_replicate]
    omega
  · intro c member
    rcases List.mem_append.mp member with pad | digit
    · rw [List.eq_of_mem_replicate pad]
      decide
    · exact Nat.isDigit_of_mem_toDigits (by decide) (by decide) digit
  · rw [Nat.ofDigitChars_append, Nat.ofDigitChars_replicate_zero, Nat.mul_zero, Nat.ofDigitChars_ten_toDigits]

theorem toIntOrNull_padded {width : ℕ} {n : ℤ} (places : 0 < width) (short : width ≤ 9) (nonneg : 0 ≤ n)
    (below : n < 10 ^ width) : Evaluator.toIntOrNull ((Reference.padded width n).map Char.toNat) = some n := by
  obtain ⟨length, digits, value⟩ := padded_spec places nonneg below
  have read := digitsOrNull_digits digits 0
  rw [value] at read
  have small : (10 : ℤ) ^ width ≤ 10 ^ 9 := pow_le_pow_right₀ (by norm_num) short
  have fits : Evaluator.int32 n = some n := by
    rw [Evaluator.int32, if_pos (by omega)]
  cases padded : Reference.padded width n with
  | nil =>
    rw [padded] at length
    simp only [List.length_nil] at length
    omega
  | cons c cs =>
    rw [padded] at digits read
    have bounds := digit_bounds (digits c List.mem_cons_self)
    rw [List.map_cons] at read ⊢
    rw [Evaluator.toIntOrNull, if_neg (by omega)]
    have whole : Evaluator.digitsOrNull 0 (c.toNat :: cs.map Char.toNat) = some n := read
    rw [whole]
    exact fits

theorem plain_digits {cs : List Char} (digits : ∀ c ∈ cs, c.isDigit = true) : 0x2D ∉ cs.map Char.toNat := by
  intro member
  obtain ⟨c, within, same⟩ := List.mem_map.mp member
  have bounds := digit_bounds (digits c within)
  omega

theorem parseOrNull_isoformat {d : Ymd} (valid : Valid d) (positive : 0 ≤ d.year) (bounded : d.year ≤ 9999) :
    Evaluator.parseOrNull (Evaluator.utf16 (Reference.isoformat d)) = some d := by
  obtain ⟨january, december, first, last⟩ := valid
  have within : d.day ≤ 31 := by
    unfold daysInMonth at last
    split_ifs at last <;> omega
  obtain ⟨lengthY, digitsY, -⟩ := @padded_spec 4 d.year (by norm_num) positive (by norm_num; omega)
  obtain ⟨lengthM, digitsM, -⟩ := @padded_spec 2 d.month (by norm_num) (by omega) (by norm_num; omega)
  obtain ⟨lengthD, digitsD, -⟩ := @padded_spec 2 d.day (by norm_num) (by omega) (by norm_num; omega)
  have year := @toIntOrNull_padded 4 d.year (by norm_num) (by norm_num) positive (by norm_num; omega)
  have month := @toIntOrNull_padded 2 d.month (by norm_num) (by norm_num) (by omega) (by norm_num; omega)
  have day := @toIntOrNull_padded 2 d.day (by norm_num) (by norm_num) (by omega) (by norm_num; omega)
  have ascii : ∀ c ∈ Reference.isoformat d, c.isDigit = true ∨ c = '-' := by
    intro c member
    simp only [Reference.isoformat, List.append_assoc, List.mem_append, List.mem_cons, List.cons_append] at member
    rcases member with y | rfl | m | rfl | t
    · exact Or.inl (digitsY c y)
    · exact Or.inr rfl
    · exact Or.inl (digitsM c m)
    · exact Or.inr rfl
    · exact Or.inl (digitsD c t)
  have units : (Reference.isoformat d).map Char.toNat = (Reference.padded 4 d.year).map Char.toNat ++
      0x2D :: ((Reference.padded 2 d.month).map Char.toNat ++ 0x2D :: (Reference.padded 2 d.day).map Char.toNat) := by
    simp [Reference.isoformat]
  have length : ((Reference.isoformat d).map Char.toNat).length = 10 := by
    rw [units]
    simp [lengthY, lengthM, lengthD]
  rw [utf16_ascii ascii, Evaluator.parseOrNull, if_neg (by omega), List.take_of_length_le (by omega), units,
    splitDash_append (plain_digits digitsY), splitDash_append (plain_digits digitsM),
    splitDash_single (plain_digits digitsD)]
  simp only [year, month, day, Option.bind_eq_bind, Option.bind_some]
  rw [if_neg (by omega)]

theorem isoformat_inj {d e : Ymd} (validD : Valid d) (positiveD : 0 ≤ d.year) (boundedD : d.year ≤ 9999) (validE : Valid e)
    (positiveE : 0 ≤ e.year) (boundedE : e.year ≤ 9999) (same : Reference.isoformat d = Reference.isoformat e) : d = e := by
  have left := parseOrNull_isoformat validD positiveD boundedD
  rw [same, parseOrNull_isoformat validE positiveE boundedE] at left
  exact (Option.some.inj left).symm

end Written

section Inverse

theorem fromEpochDays_civil (n : ℤ) : Evaluator.fromEpochDays n = Reference.isoformat (Evaluator.civil n) := rfl

theorem dayAfter_ne {d : Ymd} (valid : Valid d) : dayAfter d ≠ d := by
  intro same
  have next := ordinal_dayAfter valid
  rw [same] at next
  omega

theorem dayAfter_beforeEra {d : Ymd} (valid : Valid d) (before : BeforeEra d) : (dayAfter d).year = 0 := by
  obtain ⟨year, early⟩ := before
  unfold dayAfter
  split_ifs with within short
  · exact year
  · exact year
  · rcases early with first | ⟨second, -⟩ <;> omega

theorem civil_cases {d : Ymd} (valid : Valid d) (positive : 0 ≤ d.year) (small : ordinal d < 2 ^ 40) :
    (¬BeforeEra d ∧ Evaluator.civil (ordinal d - 719163) = d) ∨
      (BeforeEra d ∧ Evaluator.civil (ordinal d - 719163) = dayAfter d) := by
  by_cases before : BeforeEra d
  · exact Or.inr ⟨before, civil_beforeEra valid before⟩
  · have low := mt (beforeEra_iff valid positive).mpr before
    exact Or.inl ⟨before, civil_eq valid (by omega) small⟩

theorem civil_epochDays_iff {d : Ymd} (valid : Valid d) (positive : 0 ≤ d.year) (small : ordinal d < 2 ^ 40) :
    Evaluator.fromEpochDays (Evaluator.epochDays d) = Reference.isoformat d ↔ ¬BeforeEra d := by
  rw [epochDays_eq valid positive, fromEpochDays_civil]
  rcases civil_cases valid positive small with ⟨after, is⟩ | ⟨before, is⟩
  · simp [is, after]
  · rw [is]
    refine iff_of_false ?_ (not_not_intro before)
    intro same
    have year := dayAfter_beforeEra valid before
    have zero := before.1
    exact dayAfter_ne valid (isoformat_inj (dayAfter_valid valid) (by omega) (by omega) valid positive (by omega) same)

theorem epochDays_civil_iff {n : ℤ} (supported : Supported n) :
    Evaluator.epochDays (Evaluator.civil n) = n ↔ Evaluator.epochDays ⟨0, 2, 29⟩ ≤ n := by
  obtain ⟨low, high⟩ := supported
  rw [show Evaluator.epochDays ⟨0, 1, 1⟩ = -719528 by decide] at low
  rw [show Evaluator.epochDays ⟨999999, 12, 31⟩ = 364522971 by decide] at high
  rw [show Evaluator.epochDays ⟨0, 2, 29⟩ = -719469 by decide]
  have valid := ofOrdinal_valid (n + 719163)
  have place := ordinal_ofOrdinal (n + 719163)
  have positive : 0 ≤ (ofOrdinal (n + 719163)).year := by
    have early := year_le_iff valid (-1)
    rw [show daysBeforeYear (-1 + 1) = -366 by decide, place] at early
    omega
  have number : ordinal (ofOrdinal (n + 719163)) - 719163 = n := by omega
  have era := beforeEra_iff valid positive
  rw [place] at era
  rcases civil_cases valid positive (by omega) with ⟨after, is⟩ | ⟨before, is⟩
  · rw [number] at is
    have late := mt era.mpr after
    rw [is, epochDays_eq valid positive, number]
    exact iff_of_true rfl (by omega)
  · rw [number] at is
    have year := dayAfter_beforeEra valid before
    have early := era.mp before
    rw [is, epochDays_eq (dayAfter_valid valid) (by omega), ordinal_dayAfter valid, place]
    exact iff_of_false (by omega) (by omega)

theorem dateAdd_diff_iff {a b : Value} {d e : Ymd} (first : Evaluator.isoDate a = some d)
    (second : Evaluator.isoDate b = some e) :
    Evaluator.dateAddDays b (Evaluator.dateDiffDays a b) = .text (String.ofList (Reference.isoformat d)) ↔ ¬BeforeEra d := by
  obtain ⟨valid, positive, small⟩ := isoDate_spec first
  obtain ⟨low, high⟩ := ordinal_small valid positive small
  have sum : Evaluator.dateAddDays b (Evaluator.dateDiffDays a b) =
      .text (String.ofList (Evaluator.fromEpochDays (Evaluator.epochDays d))) := by
    have back : Evaluator.epochDays e + (Evaluator.epochDays d - Evaluator.epochDays e) = Evaluator.epochDays d := by ring
    simp only [Evaluator.dateDiffDays, Evaluator.dateAddDays, first, second, Evaluator.integerOf, back]
    rw [Evaluator.toInt_long]
    rw [epochDays_eq valid positive, inRange_iff]
    omega
  rw [sum, ← civil_epochDays_iff valid positive high, Value.text.injEq, String.ofList_inj]

theorem addDays_plain {a : Value} {d moved : Ymd} {n : ℤ} (read : Reference.dateOrNone a = some d)
    (moves : Reference.addDays d n = some moved) : (Value.integer n).Plain := by
  obtain ⟨valid, positive, bounded⟩ := dateOrNone_spec read
  have small := ordinal_bounded valid positive bounded
  unfold Reference.addDays at moves
  dsimp only at moves
  split at moves
  · rename_i bounds
    have there := ordinal_bounded (ofOrdinal_valid (ordinal d + n)) bounds.1 bounds.2
    rw [ordinal_ofOrdinal] at there
    exact inRange_iff.mpr (by omega)
  · cases moves

theorem dateDiff_written {a : Value} {d moved : Ymd} (read : Evaluator.isoDate a = some d) (valid : Valid moved)
    (positive : 0 ≤ moved.year) (bounded : moved.year ≤ 9999) :
    Evaluator.dateDiffDays (.text (String.ofList (Reference.isoformat moved))) a = .integer (ordinal moved - ordinal d) := by
  obtain ⟨validD, positiveD, -⟩ := isoDate_spec read
  have there : Evaluator.isoDate (.text (String.ofList (Reference.isoformat moved))) = some moved := by
    rw [Evaluator.isoDate, String.toList_ofList]
    exact parseOrNull_isoformat valid positive bounded
  have days : Evaluator.epochDays moved - Evaluator.epochDays d = ordinal moved - ordinal d := by
    rw [epochDays_eq validD positiveD, epochDays_eq valid positive]
    ring
  simp only [Evaluator.dateDiffDays, there, read, days]

theorem dateAdd_written {a : Value} {d moved : Ymd} (read : Evaluator.isoDate a = some d) {n : ℤ}
    (place : ordinal moved = ordinal d + n) (small : -366 < ordinal moved ∧ ordinal moved < 2 ^ 40) :
    Evaluator.dateAddDays a (.integer n) =
      .text (String.ofList (Reference.isoformat (Evaluator.civil (ordinal moved - 719163)))) := by
  obtain ⟨valid, positive, -⟩ := isoDate_spec read
  have sum : Evaluator.epochDays d + n = ordinal moved - 719163 := by
    rw [epochDays_eq valid positive, place]
    ring
  have number : (Evaluator.long (Evaluator.epochDays d + n)).toInt = ordinal moved - 719163 := by
    rw [sum]
    exact Evaluator.toInt_long (inRange_iff.mpr (by omega))
  simp only [Evaluator.dateAddDays, read, Evaluator.integerOf, number, fromEpochDays_civil]

theorem dateDiff_add_iff {a : Value} {d : Ymd} (read : Evaluator.isoDate a = some d) {n : ℤ}
    (positive : 0 ≤ (ofOrdinal (ordinal d + n)).year) (bounded : (ofOrdinal (ordinal d + n)).year ≤ 9999) :
    Evaluator.dateDiffDays (Evaluator.dateAddDays a (.integer n)) a = .integer n ↔
      ¬BeforeEra (ofOrdinal (ordinal d + n)) := by
  have valid := ofOrdinal_valid (ordinal d + n)
  have place := ordinal_ofOrdinal (ordinal d + n)
  generalize ofOrdinal (ordinal d + n) = moved at positive bounded valid place ⊢
  have small := ordinal_small valid positive (by omega)
  rw [dateAdd_written read place small]
  rcases civil_cases valid positive small.2 with ⟨after, is⟩ | ⟨before, is⟩
  · rw [is, dateDiff_written read valid positive bounded, Value.integer.injEq]
    exact iff_of_true (by omega) after
  · have year := dayAfter_beforeEra valid before
    rw [is, dateDiff_written read (dayAfter_valid valid) (by omega) (by omega), ordinal_dayAfter valid,
      Value.integer.injEq]
    exact iff_of_false (by omega) (not_not_intro before)

/-- Dates and day numbers are each other's inverses on the phone, in the calendar of the reference engine,
but for the first 59 days of the year 0. -/
theorem dayArithmetic_iff (iso : String) (n : ℤ) (a b : Value) :
    (∀ d, Evaluator.parseOrNull (Evaluator.utf16 iso.toList) = some d →
      Evaluator.epochDays (dayAfter d) = Evaluator.epochDays d + 1 ∧ Evaluator.epochDays d = ordinal d - 719163 ∧
        (Evaluator.fromEpochDays (Evaluator.epochDays d) = Reference.isoformat d ↔ ¬BeforeEra d)) ∧
    (Supported n →
      (Evaluator.epochDays (Evaluator.civil n) = n ↔ Evaluator.epochDays ⟨0, 2, 29⟩ ≤ n)) ∧
    (∀ d e, Evaluator.isoDate a = some d → Evaluator.isoDate b = some e →
      (Evaluator.dateAddDays b (Evaluator.dateDiffDays a b) = .text (String.ofList (Reference.isoformat d)) ↔
        ¬BeforeEra d)) ∧
    (∀ d, Evaluator.isoDate a = some d → 0 ≤ (ofOrdinal (ordinal d + n)).year →
      (ofOrdinal (ordinal d + n)).year ≤ 9999 →
      (Evaluator.dateDiffDays (Evaluator.dateAddDays a (.integer n)) a = .integer n ↔
        ¬BeforeEra (ofOrdinal (ordinal d + n)))) ∧
    (∀ d e d' e', Reference.dateOrNone a = some d → Evaluator.isoDate a = some d' →
      Reference.dateOrNone b = some e → Evaluator.isoDate b = some e' →
        d = d' ∧ Reference.dateDiffDays a b = Evaluator.dateDiffDays a b ∧
          ∀ moved, Reference.addDays d n = some moved →
            Reference.dateAddDays a (.integer n) = Evaluator.dateAddDays a (.integer n)) := by
  refine ⟨?_, fun supported => epochDays_civil_iff supported, fun d e first second => dateAdd_diff_iff first second,
    fun d read low high => dateDiff_add_iff read low high, ?_⟩
  · intro d accepted
    obtain ⟨valid, positive, small⟩ := parseOrNull_spec accepted
    obtain ⟨-, high⟩ := ordinal_small valid positive small
    refine ⟨?_, epochDays_eq valid positive, civil_epochDays_iff valid positive high⟩
    rw [epochDays_eq valid positive, epochDays_eq (dayAfter_valid valid) (positive.trans year_dayAfter),
      ordinal_dayAfter valid]
    ring
  · intro d e d' e' reference device reference' device'
    refine ⟨(dates_unique reference device).symm, (dateDiff_iff a b).mpr ?_, fun moved moves => (dateAdd_iff a ?_).mpr ?_⟩
    · simp [BothMeet, reference, device, reference', device']
    · exact addDays_plain reference moves
    · simp [AddMeets, reference, device, moves]

theorem leap_day_written :
    Evaluator.fromEpochDays (Evaluator.epochDays ⟨2024, 2, 29⟩) = Reference.isoformat ⟨2024, 2, 29⟩ := by
  refine ((dayArithmetic_iff "2024-02-29" 0 .null .null).1 ⟨2024, 2, 29⟩ (by decide)).2.2.mpr ?_
  rintro ⟨year, -⟩
  exact absurd year (by decide)

/-- New Year's Day of the year 0 is accepted, and written as the second of January. -/
theorem new_year_zero : Evaluator.parseOrNull (Evaluator.utf16 "0000-01-01".toList) = some ⟨0, 1, 1⟩ ∧
    Evaluator.fromEpochDays (Evaluator.epochDays ⟨0, 1, 1⟩) ≠ Reference.isoformat ⟨0, 1, 1⟩ ∧
    Evaluator.dateAddDays (.text "0000-01-01") (.integer 0) = .text "0000-01-02" ∧
    Evaluator.epochDays (Evaluator.civil (-719528)) = -719527 := by
  refine ⟨by decide, by decide, ?_, by decide⟩
  rw [@dateAdd_written (.text "0000-01-01") ⟨0, 1, 1⟩ ⟨0, 1, 1⟩ (by decide) 0 (by decide) (by decide)]
  exact congrArg Value.text (by decide +kernel)

end Inverse

end DataCollectionLab.Form
