import Mathlib.Data.Int.Log
import Mathlib.Data.Rat.Floor
import Mathlib.Tactic.FieldSimp
import Mathlib.Tactic.Linarith
import Mathlib.Tactic.Positivity

/-!
Double precision arithmetic by what the numbers denote: an operation is the exact one, rounded to the
nearest double with ties to even. Zero has no sign here.
-/

namespace DataCollectionLab.Lib

inductive Binary64 where
  | finite (value : ℚ)
  | inf (negative : Bool)
  | nan
  deriving DecidableEq

namespace Binary64

def roundEven (q : ℚ) : ℤ :=
  if q - ⌊q⌋ < 1 / 2 then ⌊q⌋
  else if 1 / 2 < q - ⌊q⌋ then ⌊q⌋ + 1
  else if ⌊q⌋ % 2 = 0 then ⌊q⌋ else ⌊q⌋ + 1

def unit (q : ℚ) : ℤ := max (-1074) (Int.log 2 |q| - 52)

def nearest (q : ℚ) : ℚ := roundEven (q / 2 ^ unit q) * 2 ^ unit q

def limit : ℚ := 2 ^ 1024

def round (q : ℚ) : Binary64 := if |nearest q| < limit then .finite (nearest q) else .inf (q < 0)

def ofInt (n : ℤ) : Binary64 := round n

def neg : Binary64 → Binary64
  | finite a => finite (-a)
  | inf negative => inf (!negative)
  | nan => nan

def add : Binary64 → Binary64 → Binary64
  | finite a, finite b => round (a + b)
  | inf s, inf t => if s = t then inf s else nan
  | inf s, finite _ | finite _, inf s => inf s
  | nan, _ | _, nan => nan

def sub (a b : Binary64) : Binary64 := add a (neg b)

def mul : Binary64 → Binary64 → Binary64
  | finite a, finite b => round (a * b)
  | inf s, inf t => inf (s ^^ t)
  | inf s, finite a | finite a, inf s => if a = 0 then nan else inf (s ^^ decide (a < 0))
  | nan, _ | _, nan => nan

def div : Binary64 → Binary64 → Binary64
  | finite a, finite b => if b = 0 then nan else round (a / b)
  | finite _, inf _ => finite 0
  | inf s, finite b => inf (s ^^ decide (b < 0))
  | inf _, inf _ | nan, _ | _, nan => nan

def truncated (q : ℚ) : ℤ := if q < 0 then ⌈q⌉ else ⌊q⌋

/-- `fmod`: the remainder of a division towards zero. -/
def fmod : Binary64 → Binary64 → Binary64
  | finite a, finite b => if b = 0 then nan else round (a - b * truncated (a / b))
  | finite a, inf _ => finite a
  | inf _, _ | nan, _ | _, nan => nan

def floor : Binary64 → Binary64
  | finite a => finite ⌊a⌋
  | other => other

def ceil (a : Binary64) : Binary64 := neg (floor (neg a))

def abs : Binary64 → Binary64
  | finite a => finite |a|
  | inf _ => inf false
  | nan => nan

def isFinite : Binary64 → Bool
  | finite _ => true
  | inf _ | nan => false

def lt : Binary64 → Binary64 → Bool
  | finite a, finite b => a < b
  | inf s, inf t => s && !t
  | inf s, finite _ => s
  | finite _, inf t => !t
  | nan, _ | _, nan => false

def eq : Binary64 → Binary64 → Bool
  | nan, _ => false
  | a, b => a = b

def le (a b : Binary64) : Bool := lt a b || eq a b

def isInteger : Binary64 → Bool
  | finite a => a.den = 1
  | inf _ | nan => false

section Rounding

theorem floor_le_roundEven (q : ℚ) : ⌊q⌋ ≤ roundEven q := by
  unfold roundEven
  split_ifs <;> omega

theorem roundEven_le (q : ℚ) : roundEven q ≤ ⌊q⌋ + 1 := by
  unfold roundEven
  split_ifs <;> omega

@[simp] theorem roundEven_intCast (n : ℤ) : roundEven n = n := by
  simp [roundEven]

theorem roundEven_mono {q r : ℚ} (le : q ≤ r) : roundEven q ≤ roundEven r := by
  rcases lt_or_eq_of_le (Int.floor_le_floor le) with less | same
  · have above := roundEven_le q
    have below := floor_le_roundEven r
    omega
  · unfold roundEven
    rw [← same]
    have step : q - ⌊q⌋ ≤ r - ⌊q⌋ := by linarith
    split_ifs <;> first | omega | (exfalso; linarith)

theorem zpow_unit_pos (e : ℤ) : (0 : ℚ) < 2 ^ e := zpow_pos (by norm_num) e

theorem roundEven_mul_le {q : ℚ} {e : ℤ} {n : ℤ} (le : q ≤ n * 2 ^ e) :
    (roundEven (q / 2 ^ e) : ℚ) * 2 ^ e ≤ n * 2 ^ e := by
  have positive := zpow_unit_pos e
  have bound : q / 2 ^ e ≤ n := (div_le_iff₀ positive).mpr le
  have rounded := roundEven_mono bound
  rw [roundEven_intCast] at rounded
  have cast : (roundEven (q / 2 ^ e) : ℚ) ≤ n := by exact_mod_cast rounded
  exact mul_le_mul_of_nonneg_right cast positive.le

theorem le_roundEven_mul {q : ℚ} {e : ℤ} {n : ℤ} (le : n * 2 ^ e ≤ q) :
    (n : ℚ) * 2 ^ e ≤ roundEven (q / 2 ^ e) * 2 ^ e := by
  have positive := zpow_unit_pos e
  have bound : (n : ℚ) ≤ q / 2 ^ e := (le_div_iff₀ positive).mpr le
  have rounded := roundEven_mono bound
  rw [roundEven_intCast] at rounded
  have cast : (n : ℚ) ≤ roundEven (q / 2 ^ e) := by exact_mod_cast rounded
  exact mul_le_mul_of_nonneg_right cast positive.le

theorem nearest_nonneg {q : ℚ} (nonneg : 0 ≤ q) : 0 ≤ nearest q := by
  have bound := @le_roundEven_mul q (unit q) 0 (by simpa using nonneg)
  simpa [nearest] using bound

theorem nearest_nonpos {q : ℚ} (nonpos : q ≤ 0) : nearest q ≤ 0 := by
  have bound := @roundEven_mul_le q (unit q) 0 (by simpa using nonpos)
  simpa [nearest] using bound

theorem unit_neg (q : ℚ) : unit (-q) = unit q := by rw [unit, unit, abs_neg]

theorem roundEven_neg (q : ℚ) : roundEven (-q) = -roundEven q := by
  by_cases whole : (⌊q⌋ : ℚ) = q
  · rw [← whole, ← Int.cast_neg, roundEven_intCast, roundEven_intCast]
  · have less : (⌊q⌋ : ℚ) < q := lt_of_le_of_ne (Int.floor_le q) whole
    have above := Int.lt_floor_add_one q
    have down : ⌊-q⌋ = -⌊q⌋ - 1 := by
      rw [Int.floor_eq_iff]
      push_cast
      constructor <;> linarith
    unfold roundEven
    rw [down]
    push_cast
    split_ifs <;> first | omega | (exfalso; linarith)

theorem nearest_neg (q : ℚ) : nearest (-q) = -nearest q := by
  rw [nearest, nearest, unit_neg, neg_div, roundEven_neg]
  push_cast
  ring

theorem zpow_log_le {q : ℚ} (positive : 0 < q) : (2 : ℚ) ^ Int.log 2 q ≤ q := by
  exact_mod_cast @Int.zpow_log_le_self ℚ _ _ _ _ 2 q (by norm_num) positive

theorem lt_zpow_log (q : ℚ) : q < (2 : ℚ) ^ (Int.log 2 q + 1) := by
  exact_mod_cast @Int.lt_zpow_succ_log_self ℚ _ _ _ _ 2 (by norm_num) q

theorem zpow_eq_mul {top e : ℤ} (le : e ≤ top) : ((2 ^ (top - e).toNat : ℤ) : ℚ) * 2 ^ e = 2 ^ top := by
  push_cast
  rw [← zpow_natCast, ← zpow_add₀ (by norm_num : (2 : ℚ) ≠ 0), Int.toNat_of_nonneg (by omega)]
  congr 1
  omega

theorem nearest_mono_of_pos {q r : ℚ} (positive : 0 < q) (le : q ≤ r) : nearest q ≤ nearest r := by
  have later : 0 < r := positive.trans_le le
  have logs : Int.log 2 q ≤ Int.log 2 r := Int.log_mono_right positive le
  have unitQ : unit q = max (-1074) (Int.log 2 q - 52) := by rw [unit, abs_of_pos positive]
  have unitR : unit r = max (-1074) (Int.log 2 r - 52) := by rw [unit, abs_of_pos later]
  by_cases same : unit q = unit r
  · have rounded := roundEven_mono (div_le_div_of_nonneg_right le (zpow_unit_pos (unit q)).le)
    rw [nearest, nearest, ← same]
    exact mul_le_mul_of_nonneg_right (by exact_mod_cast rounded) (zpow_unit_pos _).le
  · -- Another binade: its first power of two lies between the two.
    have binade : unit r = Int.log 2 r - 52 := by omega
    have apart : Int.log 2 q + 1 ≤ Int.log 2 r := by omega
    have below : q ≤ 2 ^ Int.log 2 r :=
      (lt_zpow_log q).le.trans (zpow_le_zpow_right₀ (by norm_num) apart)
    have first : nearest q ≤ 2 ^ Int.log 2 r := by
      have power := @zpow_eq_mul (Int.log 2 r) (unit q) (by omega)
      rw [nearest, ← power]
      exact roundEven_mul_le (by rw [power]; exact below)
    have second : 2 ^ Int.log 2 r ≤ nearest r := by
      have power := @zpow_eq_mul (Int.log 2 r) (unit r) (by omega)
      rw [nearest, ← power]
      exact le_roundEven_mul (by rw [power]; exact zpow_log_le later)
    exact first.trans second

theorem nearest_mono {q r : ℚ} (le : q ≤ r) : nearest q ≤ nearest r := by
  rcases lt_or_ge 0 q with positive | nonpos
  · exact nearest_mono_of_pos positive le
  · rcases lt_or_ge r 0 with negative | nonneg
    · have flipped := nearest_mono_of_pos (neg_pos.mpr negative) (neg_le_neg le)
      rw [nearest_neg, nearest_neg] at flipped
      exact neg_le_neg_iff.mp flipped
    · exact (nearest_nonpos nonpos).trans (nearest_nonneg nonneg)

theorem nearest_of_unit {q : ℚ} {n : ℤ} (whole : q = n * 2 ^ unit q) : nearest q = q := by
  have exact : q / 2 ^ unit q = n := by
    rw [div_eq_iff (zpow_unit_pos _).ne']
    exact whole
  rw [nearest, exact, roundEven_intCast, ← whole]

theorem nearest_mul_zpow {m e : ℤ} (short : |m| ≤ 2 ^ 53) (low : -1074 ≤ e) :
    nearest (m * 2 ^ e) = m * 2 ^ e := by
  by_cases zero : m = 0
  · subst zero
    simp [nearest, roundEven]
  have size : |(m : ℚ) * 2 ^ e| = |(m : ℚ)| * 2 ^ e := by rw [abs_mul, abs_of_pos (zpow_unit_pos e)]
  have positive : 0 < |(m : ℚ) * 2 ^ e| := by
    rw [size]
    exact mul_pos (abs_pos.mpr (by exact_mod_cast zero)) (zpow_unit_pos e)
  have cast : |(m : ℚ)| ≤ 2 ^ 53 := by exact_mod_cast short
  have small : |(m : ℚ) * 2 ^ e| ≤ 2 ^ (e + 53) := by
    rw [size, zpow_add₀ (by norm_num : (2 : ℚ) ≠ 0), mul_comm]
    exact mul_le_mul_of_nonneg_left (by exact_mod_cast cast) (zpow_unit_pos e).le
  have log : Int.log 2 |(m : ℚ) * 2 ^ e| ≤ e + 53 := by
    have low := (zpow_log_le positive).trans small
    exact (zpow_le_zpow_iff_right₀ (by norm_num)).mp low
  rcases lt_or_eq_of_le log with less | full
  · have down : unit (m * 2 ^ e) ≤ e := by
      rw [unit]
      omega
    refine @nearest_of_unit _ (m * 2 ^ (e - unit (m * 2 ^ e)).toNat) ?_
    rw [Int.cast_mul, mul_assoc, zpow_eq_mul down]
  · -- Only the power of two itself reaches the next binade.
    have up : unit (m * 2 ^ e) = e + 1 := by
      rw [unit]
      omega
    have reached : (2 : ℚ) ^ (e + 53) ≤ |(m : ℚ)| * 2 ^ e := by
      rw [← size, ← full]
      exact zpow_log_le positive
    have most : |m| = 2 ^ 53 := by
      refine le_antisymm short ?_
      rw [zpow_add₀ (by norm_num : (2 : ℚ) ≠ 0), mul_comm] at reached
      exact_mod_cast le_of_mul_le_mul_right reached (zpow_unit_pos e)
    have half : ((m / 2 : ℤ) : ℚ) * 2 = m := by
      have even : m / 2 * 2 = m := by
        rcases (abs_eq (by norm_num : (0 : ℤ) ≤ 2 ^ 53)).mp most with same | same <;> omega
      exact_mod_cast even
    refine @nearest_of_unit _ (m / 2) ?_
    rw [up, zpow_add₀ (by norm_num : (2 : ℚ) ≠ 0), zpow_one, mul_comm ((2 : ℚ) ^ e) 2, ← mul_assoc, half]

theorem roundEven_unit_le (q : ℚ) : |roundEven (q / 2 ^ unit q)| ≤ 2 ^ 53 := by
  have power : ((2 ^ 53 : ℤ) : ℚ) * 2 ^ unit q = 2 ^ (53 + unit q) := by
    rw [zpow_add₀ (by norm_num : (2 : ℚ) ≠ 0)]
    norm_num
  have size : |q| ≤ ((2 ^ 53 : ℤ) : ℚ) * 2 ^ unit q := by
    rw [power]
    refine (lt_zpow_log |q|).le.trans (zpow_le_zpow_right₀ (by norm_num) ?_)
    rw [unit]
    omega
  rw [abs_le] at size ⊢
  have above := roundEven_mul_le size.2
  have below := @le_roundEven_mul q (unit q) (-2 ^ 53) (by push_cast at size ⊢; linarith [size.1])
  constructor
  · exact_mod_cast le_of_mul_le_mul_right below (zpow_unit_pos _)
  · exact_mod_cast le_of_mul_le_mul_right above (zpow_unit_pos _)

theorem nearest_nearest (q : ℚ) : nearest (nearest q) = nearest q :=
  nearest_mul_zpow (roundEven_unit_le q) (le_max_left _ _)

theorem nearest_intCast {n : ℤ} (short : |n| ≤ 2 ^ 53) : nearest n = n := by
  have whole := @nearest_mul_zpow n 0 short (by norm_num)
  simpa using whole

end Rounding

def IsDouble : Binary64 → Prop
  | finite a => nearest a = a ∧ |a| < limit
  | inf _ | nan => True

theorem isDouble_round (q : ℚ) : IsDouble (round q) := by
  unfold round
  split
  · rename_i small
    exact ⟨nearest_nearest q, small⟩
  · trivial

theorem round_eq {a : ℚ} (double : IsDouble (finite a)) : round a = finite a := by
  unfold round
  rw [double.1, if_pos double.2]

theorem le_round {q r : ℚ} (below : q ≤ r) : le (round q) (round r) = true := by
  have mono := nearest_mono below
  unfold round
  split_ifs with smallQ smallR smallR
  · simpa [le, lt, eq, le_iff_lt_or_eq] using mono
  · have sign : ¬ r < 0 := by
      intro negative
      have nonpos := nearest_nonpos negative.le
      rw [abs_of_nonpos nonpos, not_lt] at smallR
      rw [abs_of_nonpos (mono.trans nonpos)] at smallQ
      linarith
    simp [le, lt, sign]
  · have sign : q < 0 := by
      by_contra nonneg
      have first := nearest_nonneg (not_lt.mp nonneg)
      rw [abs_of_nonneg first] at smallQ
      rw [abs_of_nonneg (first.trans mono)] at smallR
      linarith
    simp [le, lt, sign]
  · by_cases negative : q < 0
    · by_cases later : r < 0 <;> simp [le, lt, eq, negative, later]
    · have later : ¬ r < 0 := fun less => negative (below.trans_lt less)
      simp [le, lt, eq, negative, later]

section Order

def rounded : Binary64 → Binary64
  | finite a => round a
  | inf negative => inf negative
  | nan => nan

theorem rounded_eq {d : Binary64} (double : IsDouble d) : rounded d = d := by
  cases d with
  | finite a => exact round_eq double
  | inf negative => rfl
  | nan => rfl

theorem round_ne_nan (q : ℚ) : round q ≠ nan := by
  unfold round
  split <;> exact Binary64.noConfusion

theorem rounded_eq_nan_iff (p : Binary64) : rounded p = nan ↔ p = nan := by
  cases p with
  | finite a => exact ⟨fun same => absurd same (round_ne_nan a), Binary64.noConfusion⟩
  | inf negative => exact Iff.rfl
  | nan => exact Iff.rfl

@[simp] theorem lt_nan_left (q : Binary64) : lt nan q = false := by cases q <;> rfl

@[simp] theorem lt_nan_right (p : Binary64) : lt p nan = false := by cases p <;> rfl

@[simp] theorem eq_nan_left (q : Binary64) : eq nan q = false := rfl

@[simp] theorem eq_nan_right (p : Binary64) : eq p nan = false := by cases p <;> rfl

theorem eq_swap (p q : Binary64) : eq q p = eq p q := by
  cases p <;> cases q <;> simp [eq, eq_comm]

theorem trichotomy {p q : Binary64} (numberP : p ≠ nan) (numberQ : q ≠ nan) :
    lt p q = true ∧ eq p q = false ∧ lt q p = false ∨ lt p q = false ∧ eq p q = true ∧ lt q p = false ∨
      lt p q = false ∧ eq p q = false ∧ lt q p = true := by
  cases p with
  | nan => exact absurd rfl numberP
  | finite a =>
    cases q with
    | nan => exact absurd rfl numberQ
    | finite b =>
      rcases lt_trichotomy a b with less | same | more
      · simp [lt, eq, less, less.ne, less.le]
      · simp [lt, eq, same]
      · simp [lt, eq, more, more.ne', more.le]
    | inf t => cases t <;> simp [lt, eq]
  | inf s =>
    cases q with
    | nan => exact absurd rfl numberQ
    | finite b => cases s <;> simp [lt, eq]
    | inf t => cases s <;> cases t <;> simp [lt, eq]

theorem le_rounded {p q : Binary64} (below : le p q = true) : le (rounded p) (rounded q) = true := by
  have top (r : ℚ) : le (round r) (inf false) = true := by
    unfold round
    split
    · rfl
    · cases decide (r < 0) <;> rfl
  have bottom (r : ℚ) : le (inf true) (round r) = true := by
    unfold round
    split
    · rfl
    · cases decide (r < 0) <;> rfl
  cases p with
  | nan => simp [le, lt, eq] at below
  | finite a =>
    cases q with
    | nan => simp [le, lt, eq] at below
    | finite b =>
      apply le_round
      simpa [le, lt, eq, le_iff_lt_or_eq] using below
    | inf t =>
      cases t with
      | true => simp [le, lt, eq] at below
      | false => exact top a
  | inf s =>
    cases q with
    | nan => simp [le, lt, eq] at below
    | finite b =>
      cases s with
      | true => exact bottom b
      | false => simp [le, lt, eq] at below
    | inf t => exact below

theorem lt_of_lt_rounded {p q : Binary64} (numberP : p ≠ nan) (numberQ : q ≠ nan)
    (less : lt (rounded p) (rounded q) = true) : lt p q = true := by
  have roundedP : rounded p ≠ nan := fun same => numberP ((rounded_eq_nan_iff p).mp same)
  have roundedQ : rounded q ≠ nan := fun same => numberQ ((rounded_eq_nan_iff q).mp same)
  by_contra more
  have back : le q p = true := by
    rcases trichotomy numberP numberQ with ⟨below, -, -⟩ | ⟨-, same, -⟩ | ⟨-, -, above⟩
    · exact absurd below more
    · have equal : q = p := by
        cases p <;> simp_all [eq]
      subst equal
      simp [le, same]
    · simp [le, above]
  have turned := le_rounded back
  unfold le at turned
  rcases trichotomy roundedQ roundedP with ⟨-, -, above⟩ | ⟨-, -, above⟩ | ⟨below, same, -⟩
  · rw [less] at above
    exact Bool.noConfusion above
  · rw [less] at above
    exact Bool.noConfusion above
  · rw [below, same] at turned
    exact Bool.noConfusion turned

end Order

section Closure

theorem isDouble_zero : IsDouble (finite 0) := by
  refine ⟨?_, by norm_num [limit]⟩
  exact_mod_cast @nearest_intCast 0 (by norm_num)

theorem isDouble_neg {d : Binary64} (double : IsDouble d) : IsDouble d.neg := by
  cases d with
  | finite a => exact ⟨by rw [nearest_neg, double.1], by rw [abs_neg]; exact double.2⟩
  | inf negative => trivial
  | nan => trivial

theorem isDouble_add (x y : Binary64) : IsDouble (x.add y) := by
  cases x <;> cases y <;> simp only [add] <;> first | exact isDouble_round _ | trivial | (split <;> trivial)

theorem isDouble_mul (x y : Binary64) : IsDouble (x.mul y) := by
  cases x <;> cases y <;> simp only [mul] <;> first | exact isDouble_round _ | trivial | (split <;> trivial)

theorem isDouble_div (x y : Binary64) : IsDouble (x.div y) := by
  cases x <;> cases y <;> simp only [div] <;>
    first
      | trivial
      | exact isDouble_zero
      | (split; trivial; exact isDouble_round _)

theorem isDouble_fmod {x : Binary64} (double : IsDouble x) (y : Binary64) : IsDouble (x.fmod y) := by
  cases x <;> cases y <;> simp only [fmod] <;>
    first
      | trivial
      | exact double
      | (split; trivial; exact isDouble_round _)

theorem abs_nearest_le_pow {k : ℕ} {q : ℚ} (small : |q| ≤ 2 ^ k) : |nearest q| ≤ 2 ^ k := by
  have power : nearest (2 ^ k : ℚ) = 2 ^ k := by
    have exact := @nearest_mul_zpow 1 k (by norm_num) (by omega)
    simpa using exact
  rw [abs_le] at small ⊢
  have low := nearest_mono small.1
  have high := nearest_mono small.2
  rw [nearest_neg, power] at low
  rw [power] at high
  exact ⟨low, high⟩

theorem round_of_abs_le_pow {k : ℕ} (short : k < 1024) {q : ℚ} (small : |q| ≤ 2 ^ k) :
    round q = finite (nearest q) := by
  have bound : |nearest q| < limit :=
    (abs_nearest_le_pow small).trans_lt (pow_lt_pow_right₀ (by norm_num) short)
  rw [round, if_pos bound]

theorem abs_nearest_le {q : ℚ} (small : |q| ≤ 2 ^ 63) : |nearest q| ≤ 2 ^ 63 := abs_nearest_le_pow small

theorem round_of_abs_le {q : ℚ} (small : |q| ≤ 2 ^ 63) : round q = finite (nearest q) :=
  round_of_abs_le_pow (by norm_num) small

theorem one_le_abs_nearest {n : ℤ} (nonzero : n ≠ 0) : 1 ≤ |nearest (n : ℚ)| := by
  have one : nearest 1 = 1 := by exact_mod_cast @nearest_intCast 1 (by norm_num)
  rcases lt_or_gt_of_ne nonzero with negative | positive
  · have below : (n : ℚ) ≤ -1 := by exact_mod_cast (by omega : n ≤ -1)
    have rounds := nearest_mono below
    rw [nearest_neg, one] at rounds
    rw [abs_of_neg (by linarith)]
    linarith
  · have above : (1 : ℚ) ≤ n := by exact_mod_cast (by omega : 1 ≤ n)
    have rounds := nearest_mono above
    rw [one] at rounds
    rw [abs_of_pos (by linarith)]
    exact rounds

end Closure

section Quotients

theorem one_le_abs {n : ℤ} (nonzero : n ≠ 0) : 1 ≤ |(n : ℚ)| := by
  have whole : 1 ≤ |n| := Int.one_le_abs nonzero
  exact_mod_cast whole

end Quotients

end Binary64

end DataCollectionLab.Lib
