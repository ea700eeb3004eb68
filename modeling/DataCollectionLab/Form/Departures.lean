import DataCollectionLab.Form.Reference
import DataCollectionLab.Form.Evaluator

/-!
The two engines side by side. Each compares, divides and takes remainders in its own language, so they come
apart on some operands: `Departs` says on which, one operator at a time.
-/

namespace DataCollectionLab.Form

open Lib

def Value.Proper : Value → Prop
  | .null | .text _ | .bool _ => True
  | .integer n => inRange n = true
  | .decimal d => d.IsDouble
  | .sequence items => ∀ item ∈ items, ∃ text, item = .text text
  | .dateValue _ | .geoPoint .. | .mediaRef .. => False

def Fine : Except Failure Value → Prop
  | .ok value => value.Proper
  | .error failure => failure = .overflow

def SameOutcome : Except Failure Value → Except Failure Value → Prop
  | .ok (.decimal x), .ok (.decimal y) => x = y ∨ x.isInteger = false ∧ y.isInteger = false
  | .ok a, .ok b => a = b
  | .error .overflow, .error .overflow => True
  | _, _ => False

namespace Num

def Proper : Num → Prop
  | int n => inRange n = true
  | float d => d.IsDouble

def Short : Num → Prop
  | int n => inRange n = true
  | float _ => True

theorem Proper.short {x : Num} (proper : x.Proper) : x.Short := by
  cases x with
  | int n => exact proper
  | float d => trivial

def squeezed (x y : Num) : Bool := Binary64.lt x.exact y.exact && Binary64.eq x.double y.double

theorem double_eq_rounded {x : Num} (proper : x.Proper) : x.double = Binary64.rounded x.exact := by
  cases x with
  | int n => rfl
  | float d => exact (Binary64.rounded_eq proper).symm

theorem order_cases {x y : Num} (properX : x.Proper) (properY : y.Proper) :
    Binary64.lt x.exact y.exact = (Binary64.lt x.double y.double ^^ squeezed x y) ∧
      Binary64.eq x.exact y.exact = (Binary64.eq x.double y.double ^^ (squeezed x y || squeezed y x)) ∧
      Binary64.le x.exact y.exact = (Binary64.le x.double y.double ^^ squeezed y x) := by
  unfold squeezed Binary64.le
  rw [double_eq_rounded properX, double_eq_rounded properY, Binary64.eq_swap (Binary64.rounded x.exact)]
  by_cases numberX : x.exact = .nan
  · rw [numberX]
    simp [Binary64.rounded]
  by_cases numberY : y.exact = .nan
  · rw [numberY]
    simp [Binary64.rounded]
  have roundedX : Binary64.rounded x.exact ≠ .nan :=
    fun same => numberX ((Binary64.rounded_eq_nan_iff _).mp same)
  have roundedY : Binary64.rounded y.exact ≠ .nan :=
    fun same => numberY ((Binary64.rounded_eq_nan_iff _).mp same)
  have forward := Binary64.lt_of_lt_rounded numberX numberY
  have backward := Binary64.lt_of_lt_rounded numberY numberX
  rcases Binary64.trichotomy numberX numberY with ⟨a, b, c⟩ | ⟨a, b, c⟩ | ⟨a, b, c⟩ <;>
    rcases Binary64.trichotomy roundedX roundedY with ⟨a', b', c'⟩ | ⟨a', b', c'⟩ | ⟨a', b', c'⟩ <;>
    simp_all

end Num

section Texts

def crossed (c d : Char) : Bool :=
  (0xE000 ≤ c.toNat && c.toNat < 0x10000 && 0x10000 ≤ d.toNat) ||
    (0xE000 ≤ d.toNat && d.toNat < 0x10000 && 0x10000 ≤ c.toNat)

/-- The first characters that differ are `crossed`. -/
def crosses : List Char → List Char → Bool
  | c :: s, d :: t => if c = d then crosses s t else crossed c d
  | _, _ => false

theorem lexLt_append (units left right : List Nat) : lexLt (units ++ left) (units ++ right) = lexLt left right := by
  induction units with
  | nil => rfl
  | cons unit units ih => simpa [lexLt] using ih

theorem lexLt_units {c d : Char} (different : c ≠ d) (left right : List Nat) :
    (decide (c.toNat < d.toNat)) =
      (lexLt (Evaluator.utf16Units c ++ left) (Evaluator.utf16Units d ++ right) ^^ crossed c d) := by
  have apart : c.toNat ≠ d.toNat := fun same => different (Char.toNat_inj.mp same)
  have validC : c.toNat < 0xD800 ∨ 0xDFFF < c.toNat ∧ c.toNat < 0x110000 := c.valid
  have validD : d.toNat < 0xD800 ∨ 0xDFFF < d.toNat ∧ d.toNat < 0x110000 := d.valid
  unfold Evaluator.utf16Units crossed
  generalize first : lexLt left right = rest
  split_ifs with shortC shortD shortD
  · simp [lexLt]
    grind
  · simp [lexLt]
    grind
  · simp [lexLt]
    grind
  · have longC : (57344 ≤ c.toNat && c.toNat < 65536) = false := by simp [shortC]
    have longD : (57344 ≤ d.toNat && d.toNat < 65536) = false := by simp [shortD]
    rw [longC, longD, Bool.false_and, Bool.false_and, Bool.or_self, Bool.xor_false, Bool.eq_iff_iff]
    simp only [List.cons_append, List.nil_append, lexLt, first, Bool.or_eq_true, Bool.and_eq_true, decide_eq_true_eq]
    cases rest <;> simp only [and_true, and_false, or_false, Bool.false_eq_true] <;> omega

theorem lexLt_codes (s t : List Char) :
    lexLt (s.map Char.toNat) (t.map Char.toNat) =
      (lexLt (Evaluator.utf16 s) (Evaluator.utf16 t) ^^ crosses s t) := by
  induction s generalizing t with
  | nil =>
    cases t with
    | nil => rfl
    | cons d t =>
      have some : ∃ unit rest, Evaluator.utf16 (d :: t) = unit :: rest := by
        simp only [Evaluator.utf16, List.flatMap_cons, Evaluator.utf16Units]
        split <;> exact ⟨_, _, rfl⟩
      obtain ⟨unit, rest, eq⟩ := some
      rw [eq]
      rfl
  | cons c s ih =>
    cases t with
    | nil => simp [lexLt, Evaluator.utf16, crosses]
    | cons d t =>
      rw [crosses]
      by_cases same : c = d
      · subst same
        rw [if_pos rfl]
        simpa [lexLt, Evaluator.utf16, lexLt_append] using ih t
      · have apart : c.toNat ≠ d.toNat := fun equal => same (Char.toNat_inj.mp equal)
        rw [if_neg same, Evaluator.utf16, Evaluator.utf16, List.flatMap_cons, List.flatMap_cons, ← lexLt_units same]
        simp [lexLt, apart]

end Texts

section Operands

def outOfOrder : Value → Value → Bool
  | .text s, .text t => crosses s.toList t.toList
  | a, b =>
    match Reference.number a, Reference.number b with
    | some x, some y => Num.squeezed x y
    | _, _ => false

def merged (a b : Value) : Bool :=
  match Reference.number a, Reference.number b with
  | some x, some y => Num.squeezed x y || Num.squeezed y x
  | _, _ => false

def turned (x y : Binary64) : Prop :=
  y.eq (.finite 0) = false ∧ x.fmod y ≠ .finite 0 ∧ x.fmod y ≠ .nan ∧
    Binary64.lt y (.finite 0) ≠ Binary64.lt (x.fmod y) (.finite 0)

def roundedQuotient (x y : ℤ) : ℚ := Binary64.nearest (Binary64.nearest x / Binary64.nearest y)

def Departs : Operator → List Value → Prop
  | .neg, [.integer n] => n = -2 ^ 63
  | .mod, [a, b] =>
    match Reference.number a, Reference.number b with
    | some (.int x), some (.int y) => ¬ y ∣ x ∧ x * y < 0
    | some x, some y => turned x.double y.double
    | _, _ => False
  | .div, [.integer x, .integer y] => y ≠ 0 ∧ Binary64.nearest (x / y) ≠ roundedQuotient x y
  | .idiv, [a, b] =>
    match Reference.number a, Reference.number b with
    | some (.int x), some (.int y) => y ≠ 0 ∧ ⌊(x / y : ℚ)⌋ ≠ min (2 ^ 63 - 1) ⌊roundedQuotient x y⌋
    | some x, some y =>
      y.double.eq (.finite 0) = false ∧
        Reference.intOfFloat (Reference.floatFloorDiv x.double y.double) ≠
          .ok (Evaluator.toLong (x.double.div y.double).floor)
    | _, _ => False
  | .lt, [a, b] | .gte, [a, b] => outOfOrder a b = true
  | .gt, [a, b] | .lte, [a, b] => outOfOrder b a = true
  | .eq, [a, b] | .ne, [a, b] | .selected, [a, b] | .isIn, [a, b] => merged a b = true
  | _, _ => False

def Fractional : Operator → List Value → Prop
  | .div, [.integer x, .integer y] => (Binary64.nearest (x / y)).den ≠ 1 ∧ (roundedQuotient x y).den ≠ 1
  | .mod, [a, b] =>
    match Reference.number a, Reference.number b with
    | some (.int _), some (.int _) => False
    | some x, some y =>
      (x.double.fmod y.double).isInteger = false ∧ ((x.double.fmod y.double).add y.double).isInteger = false
    | _, _ => False
  | _, _ => False

def Reference.operate : Operator → List Value → Except Failure Value
  | .and, args => .ok (Reference.and args)
  | .or, args => .ok (Reference.or args)
  | .not, a :: _ => .ok (Reference.not a)
  | .neg, a :: _ => .ok (Reference.neg a)
  | op, a :: b :: _ => Reference.binary op a b
  | _, _ => .error (.raised "IndexError")

/-- The two engines agree on these operands exactly where they do not depart, or both have a fraction. -/
structure Settled (op : Operator) (args : List Value) : Prop where
  together : ¬ Departs op args →
    Reference.operate op args = Evaluator.operate op args ∧ Fine (Evaluator.operate op args)
  apart : Departs op args →
    (SameOutcome (Reference.operate op args) (Evaluator.operate op args) ↔ Fractional op args)

theorem number_proper {a : Value} (proper : a.Proper) {x : Num} (is : Reference.number a = some x) : x.Proper := by
  cases a <;> simp only [Reference.number, Option.some.injEq, reduceCtorEq] at is <;> subst is <;> exact proper

theorem abs_le_of_inRange {n : ℤ} (range : inRange n = true) : |(n : ℚ)| ≤ 2 ^ 63 := by
  have bounds := inRange_iff.mp range
  have whole : |n| ≤ 2 ^ 63 := by
    rw [abs_le]
    omega
  exact_mod_cast whole

theorem ofInt_eq {n : ℤ} (range : inRange n = true) : Binary64.ofInt n = .finite (Binary64.nearest n) :=
  Binary64.round_of_abs_le (abs_le_of_inRange range)

theorem toFloat_eq {x : Num} (proper : x.Short) : Reference.toFloat x = .ok x.double := by
  cases x with
  | float d => rfl
  | int n =>
    unfold Reference.toFloat Num.double
    simp only [ofInt_eq proper]

theorem isZero_eq {x : Num} (proper : x.Short) : Reference.isZero x = x.double.eq (.finite 0) := by
  cases x with
  | float d => rfl
  | int n =>
    show Binary64.eq (.finite n) (.finite 0) = Binary64.eq (Binary64.ofInt n) (.finite 0)
    rw [ofInt_eq proper]
    by_cases zero : n = 0
    · subst zero
      have none : Binary64.nearest ((0 : ℤ) : ℚ) = 0 := by
        have whole := @Binary64.nearest_intCast 0 (by norm_num)
        simpa using whole
      rw [none]
      simp [Binary64.eq]
    · have rounds : Binary64.nearest (n : ℚ) ≠ 0 := by
        intro none
        have size := Binary64.one_le_abs_nearest zero
        rw [none] at size
        norm_num at size
      simp [Binary64.eq, zero, rounds]

theorem double_isDouble {x : Num} (proper : x.Proper) : x.double.IsDouble := by
  cases x with
  | float d => exact proper
  | int n => exact Binary64.isDouble_round n

theorem arith_eq {ints : ℤ → ℤ → ℤ} {floats : Binary64 → Binary64 → Binary64}
    {longs : Int64 → Int64 → Except Failure Int64}
    (exactly : ∀ a b : Int64, (longs a b).map Int64.toInt =
      if inRange (ints a.toInt b.toInt) then .ok (ints a.toInt b.toInt) else .error .overflow)
    (closed : ∀ x y, (floats x y).IsDouble) {a b : Value} (properA : a.Proper) (properB : b.Proper) :
    Reference.arith ints floats a b = Evaluator.arithmetic longs floats a b ∧
      Fine (Evaluator.arithmetic longs floats a b) := by
  have device : Evaluator.arithmetic longs floats a b =
      match Reference.number a, Reference.number b with
      | some (.int x), some (.int y) =>
        ((longs (Evaluator.long x) (Evaluator.long y)).map Int64.toInt).map Value.integer
      | some x, some y => .ok (.decimal (floats x.double y.double))
      | _, _ => .ok .null := by
    cases a <;> cases b <;> try rfl
    rename_i x y
    show (longs (Evaluator.long x) (Evaluator.long y) >>= _) = Except.map _ (Except.map _ (longs _ _))
    cases longs (Evaluator.long x) (Evaluator.long y) <;> rfl
  rw [device]
  unfold Reference.arith
  cases isA : Reference.number a with
  | none => exact ⟨rfl, trivial⟩
  | some x =>
    have properX := number_proper properA isA
    cases isB : Reference.number b with
    | none => cases x <;> exact ⟨rfl, trivial⟩
    | some y =>
      have properY := number_proper properB isB
      have floated : (do
          let x ← Reference.toFloat x
          let y ← Reference.toFloat y
          return Value.decimal (floats x y)) = Except.ok (.decimal (floats x.double y.double)) := by
        rw [toFloat_eq properX.short, toFloat_eq properY.short]
        rfl
      cases x with
      | float d => exact ⟨floated, closed _ _⟩
      | int x =>
        cases y with
        | float d => exact ⟨floated, closed _ _⟩
        | int y =>
          simp only [exactly, Evaluator.toInt_long properX, Evaluator.toInt_long properY, Reference.checked]
          cases range : inRange (ints x y) with
          | true => exact ⟨rfl, range⟩
          | false => exact ⟨rfl, rfl⟩

theorem settled_of_eq {op : Operator} {args : List Value} (never : ¬ Departs op args)
    (equal : Reference.operate op args = Evaluator.operate op args) (fine : Fine (Evaluator.operate op args)) :
    Settled op args :=
  ⟨fun _ => ⟨equal, fine⟩, fun departs => absurd departs never⟩

theorem Settled.of {op : Operator} {args : List Value} {departs fractional : Prop}
    {reference device : Except Failure Value} (departing : Departs op args = departs)
    (fractions : Fractional op args = fractional) (left : Reference.operate op args = reference)
    (right : Evaluator.operate op args = device) (together : ¬ departs → reference = device ∧ Fine device)
    (apart : departs → (SameOutcome reference device ↔ fractional)) : Settled op args := by
  subst departing fractions left right
  exact ⟨together, apart⟩

theorem neg_settled {a : Value} (proper : a.Proper) : Settled .neg [a] := by
  cases a with
  | integer n =>
    have bounds := inRange_iff.mp proper
    by_cases least : n = -2 ^ 63
    · refine ⟨fun no => absurd least no, fun _ => ?_⟩
      subst least
      constructor
      · intro same
        simp only [Reference.operate, Evaluator.operate, Reference.neg, Reference.number, Evaluator.negate, SameOutcome,
          Value.integer.injEq] at same
        exact absurd same (by decide)
      · exact False.elim
    · have negated : (-Evaluator.long n).toInt = -n := by
        rw [Int64.toInt_neg, Evaluator.toInt_long proper, Int.bmod_eq_of_le] <;> omega
      refine settled_of_eq least ?_ ?_
      · simp only [Reference.operate, Evaluator.operate, Reference.neg, Reference.number, Evaluator.negate, negated]
      · simp only [Evaluator.operate, Evaluator.negate, negated]
        exact inRange_iff.mpr (by omega)
  | decimal d => exact settled_of_eq id rfl (Binary64.isDouble_neg proper)
  | null => exact settled_of_eq id rfl trivial
  | text value => exact settled_of_eq id rfl trivial
  | bool value => exact settled_of_eq id rfl trivial
  | sequence items => exact settled_of_eq id rfl trivial
  | dateValue iso => exact proper.elim
  | geoPoint lat lon alt accuracy => exact proper.elim
  | mediaRef id filename hash size => exact proper.elim

theorem fmod_eq_tmod_iff (x y : ℤ) : x.fmod y = x.tmod y ↔ ¬ (¬ y ∣ x ∧ x * y < 0) := by
  rw [Int.fmod_eq_tmod, mul_neg_iff]
  by_cases whole : y ∣ x
  · simp [whole]
  · have nonzero : x ≠ 0 := fun zero => whole (zero ▸ Int.dvd_zero y)
    simp only [whole, if_false, not_false_eq_true, true_and]
    split_ifs <;> omega

theorem tmod_inRange {x : ℤ} (range : inRange x = true) (y : ℤ) : inRange (x.tmod y) = true := by
  have bounds := inRange_iff.mp range
  have size : (x.tmod y).natAbs ≤ x.natAbs := by
    rw [Int.natAbs_tmod]
    exact Nat.mod_le _ _
  have up : 0 ≤ x → 0 ≤ x.tmod y := fun nonneg => Int.tmod_nonneg y nonneg
  have down : x ≤ 0 → x.tmod y ≤ 0 := by
    intro nonpos
    have flipped := Int.tmod_nonneg y (Int.neg_nonneg.mpr nonpos)
    rw [Int.neg_tmod] at flipped
    omega
  exact inRange_iff.mpr (by omega)

theorem abs_sub_truncated_le (q : ℚ) : |q - Binary64.truncated q| ≤ 1 := by
  unfold Binary64.truncated
  rw [abs_le]
  split
  · have low := Int.le_ceil q
    have high := Int.ceil_lt_add_one q
    constructor <;> linarith
  · have low := Int.floor_le q
    have high := Int.lt_floor_add_one q
    constructor <;> linarith

theorem fmod_finite (a : ℚ) {b : ℚ} (double : (Binary64.finite b).IsDouble) (divisor : b ≠ 0) :
    ∃ r, Binary64.fmod (.finite a) (.finite b) = .finite r ∧ |r| ≤ |b| := by
  have exact : a - b * Binary64.truncated (a / b) = b * (a / b - Binary64.truncated (a / b)) := by
    rw [mul_sub, mul_div_cancel₀ _ divisor]
  have small : |a - b * Binary64.truncated (a / b)| ≤ |b| := by
    rw [exact, abs_mul]
    exact mul_le_of_le_one_right (abs_nonneg b) (abs_sub_truncated_le _)
  have top : Binary64.nearest |b| = |b| := by
    rcases abs_choice b with same | flipped
    · rw [same, double.1]
    · rw [flipped, Binary64.nearest_neg, double.1]
  have rounded : |Binary64.nearest (a - b * Binary64.truncated (a / b))| ≤ |b| := by
    rw [abs_le] at small ⊢
    have low := Binary64.nearest_mono small.1
    have high := Binary64.nearest_mono small.2
    rw [Binary64.nearest_neg, top] at low
    rw [top] at high
    exact ⟨low, high⟩
  refine ⟨_, ?_, rounded⟩
  rw [Binary64.fmod, if_neg divisor, Binary64.round, if_pos (rounded.trans_lt double.2)]

theorem round_add_ne {r b : ℚ} (small : |r| ≤ |b|) (nonzero : r ≠ 0) (divisor : b ≠ 0) (signs : b < 0 ↔ ¬ r < 0) :
    Binary64.round (r + b) ≠ .finite r := by
  have moved : Binary64.nearest (r + b) ≠ r := by
    intro same
    rcases lt_or_gt_of_ne divisor with negative | positive
    · have up : 0 < r := lt_of_le_of_ne (not_lt.mp (signs.mp negative)) (Ne.symm nonzero)
      rw [abs_of_pos up, abs_of_neg negative] at small
      have down := @Binary64.nearest_nonpos (r + b) (by linarith)
      linarith
    · have down : r < 0 := by
        by_contra nonneg
        exact absurd (signs.mpr nonneg) (not_lt.mpr positive.le)
      rw [abs_of_neg down, abs_of_pos positive] at small
      have up := @Binary64.nearest_nonneg (r + b) (by linarith)
      linarith
  intro same
  unfold Binary64.round at same
  split at same
  · exact moved (Binary64.finite.inj same)
  · exact Binary64.noConfusion same

theorem floatRem_eq_iff {x y : Binary64} (doubleY : y.IsDouble) (divisor : y.eq (.finite 0) = false) :
    Reference.floatRem x y = x.fmod y ↔ ¬ turned x y := by
  unfold Reference.floatRem turned
  simp only [divisor, true_and]
  by_cases zero : x.fmod y = .finite 0
  · simp [zero]
  by_cases none : x.fmod y = .nan
  · simp only [none, ne_eq, not_true_eq_false, false_and, and_false, not_false_eq_true, iff_true]
    split <;> rfl
  simp only [zero, none, ne_eq, not_false_eq_true, true_and, not_not]
  by_cases signs : Binary64.lt y (.finite 0) = Binary64.lt (x.fmod y) (.finite 0)
  · simp [signs]
  · simp only [signs, not_false_eq_true, if_true, iff_false]
    cases x with
    | inf s => exact absurd rfl none
    | nan => exact absurd rfl none
    | finite a =>
      cases y with
      | nan => exact absurd rfl none
      | inf t => exact Binary64.noConfusion
      | finite b =>
        have nonzero : b ≠ 0 := by
          rintro rfl
          simp [Binary64.eq] at divisor
        obtain ⟨r, rest, small⟩ := fmod_finite a doubleY nonzero
        rw [rest] at zero signs ⊢
        refine round_add_ne small (fun same => zero (by rw [same])) nonzero ?_
        simp only [Binary64.lt, decide_eq_decide] at signs
        tauto

theorem mod_floats {x y : Num} (properX : x.Proper) (properY : y.Proper) {args : List Value}
    (departing : Departs .mod args = turned x.double y.double)
    (fractions : Fractional .mod args = ((x.double.fmod y.double).isInteger = false ∧
      ((x.double.fmod y.double).add y.double).isInteger = false))
    (left : Reference.operate .mod args =
      if Reference.isZero y then .ok .null
      else do return .decimal (Reference.floatRem (← Reference.toFloat x) (← Reference.toFloat y)))
    (right : Evaluator.operate .mod args =
      .ok (if y.double.eq (.finite 0) then .null else .decimal (x.double.fmod y.double))) : Settled .mod args := by
  rw [isZero_eq properY.short, toFloat_eq properX.short, toFloat_eq properY.short] at left
  cases zero : y.double.eq (.finite 0) with
  | true =>
    rw [zero] at left right
    refine Settled.of departing fractions left right (fun _ => ⟨rfl, trivial⟩) ?_
    rintro ⟨nonzero, -⟩
    rw [zero] at nonzero
    exact Bool.noConfusion nonzero
  | false =>
    rw [zero] at left right
    have same := @floatRem_eq_iff x.double y.double (double_isDouble properY) zero
    refine Settled.of departing fractions left right ?_ ?_
    · intro straight
      exact ⟨congrArg (fun d => Except.ok (Value.decimal d)) (same.mpr straight),
        Binary64.isDouble_fmod (double_isDouble properX) _⟩
    · intro departs
      have sum : Reference.floatRem x.double y.double = (x.double.fmod y.double).add y.double := by
        rw [Reference.floatRem, if_pos ⟨departs.2.1, departs.2.2.2⟩]
      have different : Reference.floatRem x.double y.double ≠ x.double.fmod y.double :=
        fun equal => same.mp equal departs
      show Reference.floatRem x.double y.double = x.double.fmod y.double ∨ _ ↔ _
      rw [or_iff_right different, sum, and_comm]

theorem mod_settled {a b : Value} (properA : a.Proper) (properB : b.Proper) : Settled .mod [a, b] := by
  cases a <;> cases b <;>
    first
      | exact properA.elim
      | exact properB.elim
      | exact settled_of_eq id rfl trivial
      | skip
  case integer.decimal x y => exact @mod_floats (.int x) (.float y) properA properB _ rfl rfl rfl rfl
  case decimal.integer x y => exact @mod_floats (.float x) (.int y) properA properB _ rfl rfl rfl rfl
  case decimal.decimal x y => exact @mod_floats (.float x) (.float y) properA properB _ rfl rfl rfl rfl
  case integer.integer x y =>
    by_cases zero : y = 0
    · subst zero
      refine settled_of_eq (fun departs => ?_) ?_ ?_
      · have product := departs.2
        omega
      · simp [Reference.operate, Reference.binary, Reference.mod, Reference.number, Reference.isZero, Num.exact,
          Binary64.eq, Evaluator.operate, Evaluator.mod]
      · simp [Evaluator.operate, Evaluator.mod, Fine, Value.Proper]
    · have reference : Reference.operate .mod [.integer x, .integer y] = .ok (.integer (x.fmod y)) := by
        simp [Reference.operate, Reference.binary, Reference.mod, Reference.number, Reference.isZero, Num.exact,
          Binary64.eq, zero]
      have device : Evaluator.operate .mod [.integer x, .integer y] = .ok (.integer (x.tmod y)) := by
        simp [Evaluator.operate, Evaluator.mod, zero]
      refine Settled.of rfl rfl reference device ?_ ?_
      · intro straight
        rw [(fmod_eq_tmod_iff x y).mpr straight]
        exact ⟨rfl, tmod_inRange properA y⟩
      · intro departs
        refine ⟨fun same => ?_, False.elim⟩
        exact (fmod_eq_tmod_iff x y).mp (Value.integer.inj same) departs

theorem abs_quotient_le {x y : ℚ} (small : |x| ≤ 2 ^ 63) (large : 1 ≤ |y|) : |x / y| ≤ 2 ^ 63 := by
  rw [abs_div, div_le_iff₀ (by linarith)]
  nlinarith [abs_nonneg x]

theorem ofInt_div {x y : ℤ} (properX : inRange x = true) (properY : inRange y = true) (divisor : y ≠ 0) :
    (Binary64.ofInt x).div (Binary64.ofInt y) = .finite (roundedQuotient x y) ∧ |roundedQuotient x y| ≤ 2 ^ 63 := by
  have large := Binary64.one_le_abs_nearest divisor
  have small := abs_quotient_le (Binary64.abs_nearest_le (abs_le_of_inRange properX)) large
  have nonzero : Binary64.nearest (y : ℚ) ≠ 0 := by
    intro zero
    rw [zero] at large
    norm_num at large
  rw [ofInt_eq properX, ofInt_eq properY]
  refine ⟨?_, Binary64.abs_nearest_le small⟩
  rw [Binary64.div, if_neg nonzero, Binary64.round_of_abs_le small]
  rfl

@[simp] theorem isZero_int (n : ℤ) : Reference.isZero (.int n) = decide (n = 0) := by
  simp [Reference.isZero, Num.exact, Binary64.eq]

theorem eq_zero_of_int {n : ℤ} (proper : inRange n = true) :
    (Binary64.ofInt n).eq (.finite 0) = decide (n = 0) := by
  have same : Reference.isZero (.int n) = (Binary64.ofInt n).eq (.finite 0) := isZero_eq proper
  rw [← same, isZero_int]

theorem div_floats {x y : Num} (properX : x.Proper) (properY : y.Proper) {args : List Value}
    (departing : Departs .div args = False)
    (left : Reference.operate .div args =
      if Reference.isZero y then .ok .null
      else do return .decimal ((← Reference.toFloat x).div (← Reference.toFloat y)))
    (right : Evaluator.operate .div args =
      .ok (if y.double.eq (.finite 0) then .null else .decimal (x.double.div y.double))) : Settled .div args := by
  rw [isZero_eq properY.short, toFloat_eq properX.short, toFloat_eq properY.short] at left
  have equal : Reference.operate .div args = Evaluator.operate .div args := by
    rw [left, right]
    cases y.double.eq (.finite 0) <;> rfl
  have fine : Fine (Evaluator.operate .div args) := by
    rw [right]
    cases y.double.eq (.finite 0) with
    | true => trivial
    | false => exact Binary64.isDouble_div _ _
  exact settled_of_eq (departing ▸ id) equal fine

theorem div_settled {a b : Value} (properA : a.Proper) (properB : b.Proper) : Settled .div [a, b] := by
  cases a <;> cases b <;>
    first
      | exact properA.elim
      | exact properB.elim
      | exact settled_of_eq id rfl trivial
      | skip
  case integer.decimal x y => exact @div_floats (.int x) (.float y) properA properB _ rfl rfl rfl
  case decimal.integer x y => exact @div_floats (.float x) (.int y) properA properB _ rfl rfl rfl
  case decimal.decimal x y => exact @div_floats (.float x) (.float y) properA properB _ rfl rfl rfl
  case integer.integer x y =>
    have zeroes := eq_zero_of_int properB
    by_cases zero : y = 0
    · subst zero
      refine settled_of_eq (fun departs => departs.1 rfl) ?_ ?_
      · simp [Reference.operate, Reference.binary, Reference.div, Reference.number, Evaluator.operate,
          Evaluator.divide, Evaluator.asDouble, zeroes]
      · simp [Evaluator.operate, Evaluator.divide, Evaluator.asDouble, zeroes, Fine, Value.Proper]
    · obtain ⟨device, -⟩ := ofInt_div properA properB zero
      have small := abs_quotient_le (abs_le_of_inRange properA) (Binary64.one_le_abs zero)
      have left : Reference.operate .div [.integer x, .integer y] =
          .ok (.decimal (.finite (Binary64.nearest (x / y)))) := by
        simp [Reference.operate, Reference.binary, Reference.div, Reference.number, zero, Reference.trueDiv,
          Binary64.round_of_abs_le small]
      have right : Evaluator.operate .div [.integer x, .integer y] =
          .ok (.decimal (.finite (roundedQuotient x y))) := by
        simp [Evaluator.operate, Evaluator.divide, Evaluator.asDouble, zeroes, zero, device]
      have double : (Binary64.finite (roundedQuotient x y)).IsDouble := by
        rw [← device]
        exact Binary64.isDouble_div _ _
      refine Settled.of rfl rfl left right ?_ ?_
      · intro straight
        have same : Binary64.nearest (x / y) = roundedQuotient x y := by
          by_contra different
          exact straight ⟨zero, different⟩
        rw [same]
        exact ⟨rfl, double⟩
      · intro departs
        show Binary64.finite _ = Binary64.finite _ ∨ _ ↔ _
        rw [or_iff_right fun same => departs.2 (Binary64.finite.inj same)]
        simp [Binary64.isInteger, Fractional]

theorem floor_div (x : ℤ) {y : ℤ} (divisor : y ≠ 0) : ⌊(x / y : ℚ)⌋ = x.fdiv y := by
  have whole : (x : ℚ) = y * x.fdiv y + x.fmod y := by exact_mod_cast (Int.mul_fdiv_add_fmod x y).symm
  rw [Int.floor_eq_iff]
  rcases lt_or_gt_of_ne divisor with negative | positive
  · have cast : (y : ℚ) < 0 := by exact_mod_cast negative
    have mirrored := Int.neg_fmod_neg x y
    have above := Int.fmod_nonneg_of_pos (-x) (Int.neg_pos.mpr negative)
    have below := Int.fmod_lt_of_pos (-x) (Int.neg_pos.mpr negative)
    have high : (x.fmod y : ℚ) ≤ 0 := by exact_mod_cast (by omega : x.fmod y ≤ 0)
    have low : (y : ℚ) < x.fmod y := by exact_mod_cast (by omega : y < x.fmod y)
    constructor
    · rw [le_div_iff_of_neg cast]
      linarith
    · rw [div_lt_iff_of_neg cast]
      linarith
  · have cast : (0 : ℚ) < y := by exact_mod_cast positive
    have low : (0 : ℚ) ≤ x.fmod y := by exact_mod_cast Int.fmod_nonneg_of_pos x positive
    have high : (x.fmod y : ℚ) < y := by exact_mod_cast Int.fmod_lt_of_pos x positive
    constructor
    · rw [le_div_iff₀ cast]
      linarith
    · rw [div_lt_iff₀ cast]
      linarith

theorem truncated_intCast (n : ℤ) : Binary64.truncated n = n := by
  simp [Binary64.truncated]

theorem toLong_floor {r : ℚ} (small : |r| ≤ 2 ^ 63) :
    Evaluator.toLong (Binary64.floor (.finite r)) = min (2 ^ 63 - 1) ⌊r⌋ := by
  have low : -2 ^ 63 ≤ ⌊r⌋ := by
    rw [Int.le_floor]
    push_cast
    exact (abs_le.mp small).1
  simp only [Binary64.floor, Evaluator.toLong, truncated_intCast]
  omega

theorem toLong_inRange (d : Binary64) : inRange (Evaluator.toLong d) = true := by
  rw [inRange_iff]
  cases d with
  | finite a =>
    simp only [Evaluator.toLong]
    omega
  | inf negative => cases negative <;> simp [Evaluator.toLong]
  | nan => simp [Evaluator.toLong]

theorem idiv_floats {x y : Num} (properX : x.Proper) (properY : y.Proper) {args : List Value}
    (departing : Departs .idiv args = (y.double.eq (.finite 0) = false ∧
      Reference.intOfFloat (Reference.floatFloorDiv x.double y.double) ≠
        .ok (Evaluator.toLong (x.double.div y.double).floor)))
    (fractions : Fractional .idiv args = False)
    (left : Reference.operate .idiv args =
      if Reference.isZero y then .ok .null
      else do
        return .integer (← Reference.intOfFloat
          (Reference.floatFloorDiv (← Reference.toFloat x) (← Reference.toFloat y))))
    (right : Evaluator.operate .idiv args =
      .ok (if y.double.eq (.finite 0) then .null
        else .integer (Evaluator.toLong (x.double.div y.double).floor))) : Settled .idiv args := by
  rw [isZero_eq properY.short, toFloat_eq properX.short, toFloat_eq properY.short] at left
  cases zero : y.double.eq (.finite 0) with
  | true =>
    rw [zero] at left right
    refine Settled.of departing fractions left right (fun _ => ⟨rfl, trivial⟩) ?_
    rintro ⟨nonzero, -⟩
    rw [zero] at nonzero
    exact Bool.noConfusion nonzero
  | false =>
    rw [zero] at left right departing
    refine Settled.of departing fractions left right ?_ ?_
    · intro straight
      have same : Reference.intOfFloat (Reference.floatFloorDiv x.double y.double) =
          .ok (Evaluator.toLong (x.double.div y.double).floor) := by
        by_contra different
        exact straight ⟨rfl, different⟩
      refine ⟨?_, toLong_inRange _⟩
      show (Reference.intOfFloat (Reference.floatFloorDiv x.double y.double) >>= _) = _
      rw [same]
      rfl
    · intro departs
      refine ⟨fun same => ?_, False.elim⟩
      change SameOutcome (Reference.intOfFloat (Reference.floatFloorDiv x.double y.double) >>= _) _ at same
      have different := departs.2
      cases outcome : Reference.intOfFloat (Reference.floatFloorDiv x.double y.double) with
      | error failure =>
        rw [outcome] at same
        cases failure <;> exact same
      | ok n =>
        rw [outcome] at same different
        exact different (congrArg Except.ok (Value.integer.inj same))

theorem idiv_settled {a b : Value} (properA : a.Proper) (properB : b.Proper) : Settled .idiv [a, b] := by
  cases a <;> cases b <;>
    first
      | exact properA.elim
      | exact properB.elim
      | exact settled_of_eq id rfl trivial
      | skip
  case integer.decimal x y => exact @idiv_floats (.int x) (.float y) properA properB _ rfl rfl rfl rfl
  case decimal.integer x y => exact @idiv_floats (.float x) (.int y) properA properB _ rfl rfl rfl rfl
  case decimal.decimal x y => exact @idiv_floats (.float x) (.float y) properA properB _ rfl rfl rfl rfl
  case integer.integer x y =>
    have zeroes := eq_zero_of_int properB
    by_cases zero : y = 0
    · subst zero
      refine settled_of_eq (fun departs => departs.1 rfl) ?_ ?_
      · simp [Reference.operate, Reference.binary, Reference.idiv, Reference.number, Evaluator.operate,
          Evaluator.integerDivide, Evaluator.asDouble, zeroes]
      · simp [Evaluator.operate, Evaluator.integerDivide, Evaluator.asDouble, zeroes, Fine, Value.Proper]
    · obtain ⟨device, small⟩ := ofInt_div properA properB zero
      have left : Reference.operate .idiv [.integer x, .integer y] = .ok (.integer ⌊(x / y : ℚ)⌋) := by
        simp [Reference.operate, Reference.binary, Reference.idiv, Reference.number, zero, floor_div x zero]
      have right : Evaluator.operate .idiv [.integer x, .integer y] =
          .ok (.integer (min (2 ^ 63 - 1) ⌊roundedQuotient x y⌋)) := by
        rw [← toLong_floor small, ← device]
        simp [Evaluator.operate, Evaluator.integerDivide, Evaluator.asDouble, zeroes, zero]
      have fine : inRange (min (2 ^ 63 - 1) ⌊roundedQuotient x y⌋) = true := by
        rw [← toLong_floor small]
        exact toLong_inRange _
      refine Settled.of rfl rfl left right ?_ ?_
      · intro straight
        have same : ⌊(x / y : ℚ)⌋ = min (2 ^ 63 - 1) ⌊roundedQuotient x y⌋ := by
          by_contra different
          exact straight ⟨zero, different⟩
        rw [same]
        exact ⟨rfl, fine⟩
      · intro departs
        refine ⟨fun same => ?_, False.elim⟩
        exact departs.2 (Value.integer.inj same)

def flipped (flag : Bool) : Value → Value
  | .bool p => .bool (p ^^ flag)
  | value => value

theorem settled_flipped {op : Operator} {args : List Value} {flag : Bool} {value : Value}
    (truth : value = .null ∧ flag = false ∨ ∃ p, value = .bool p)
    (departing : Departs op args = (flag = true)) (fractions : Fractional op args = False)
    (left : Reference.operate op args = .ok (flipped flag value))
    (right : Evaluator.operate op args = .ok value) : Settled op args := by
  rcases truth with ⟨rfl, rfl⟩ | ⟨p, rfl⟩
  · exact Settled.of departing fractions left right (fun _ => ⟨rfl, trivial⟩) Bool.noConfusion
  · cases flag with
    | false =>
      rw [flipped, Bool.xor_false] at left
      exact Settled.of departing fractions left right (fun _ => ⟨rfl, trivial⟩) Bool.noConfusion
    | true =>
      refine Settled.of departing fractions left right (fun no => absurd rfl no) ?_
      intro _
      refine ⟨fun same => ?_, False.elim⟩
      have different : (p ^^ true) = p := Value.bool.inj same
      cases p <;> exact Bool.noConfusion different

theorem outOfOrder_truth (a b : Value) (texts : List Nat → List Nat → Bool)
    (doubles : Binary64 → Binary64 → Bool) :
    (Evaluator.compare texts doubles a b = .null ∧ outOfOrder a b = false ∧ outOfOrder b a = false) ∨
      ∃ p, Evaluator.compare texts doubles a b = .bool p := by
  cases a <;> cases b <;> first | exact Or.inr ⟨_, rfl⟩ | exact Or.inl ⟨rfl, rfl, rfl⟩

theorem ordered_lt {a b : Value} (properA : a.Proper) (properB : b.Proper) :
    Reference.ordered Binary64.lt lexLt a b = flipped (outOfOrder a b) (Evaluator.compare lexLt Binary64.lt a b) := by
  cases a <;> cases b <;> try rfl
  case text.text s t => exact congrArg Value.bool (lexLt_codes s.toList t.toList)
  case integer.integer x y =>
    exact congrArg Value.bool (@Num.order_cases (.int x) (.int y) properA properB).1
  case integer.decimal x y =>
    exact congrArg Value.bool (@Num.order_cases (.int x) (.float y) properA properB).1
  case decimal.integer x y =>
    exact congrArg Value.bool (@Num.order_cases (.float x) (.int y) properA properB).1
  case decimal.decimal x y =>
    exact congrArg Value.bool (@Num.order_cases (.float x) (.float y) properA properB).1

theorem ordered_le {a b : Value} (properA : a.Proper) (properB : b.Proper) :
    Reference.ordered Binary64.le (fun s t => !lexLt t s) a b =
      flipped (outOfOrder b a) (Evaluator.compare (fun s t => !lexLt t s) Binary64.le a b) := by
  cases a <;> cases b <;> try rfl
  case text.text s t =>
    refine congrArg Value.bool ?_
    show (!lexLt (t.toList.map Char.toNat) (s.toList.map Char.toNat)) = (!lexLt _ _ ^^ crosses t.toList s.toList)
    rw [lexLt_codes, Bool.not_xor]
  case integer.integer x y =>
    exact congrArg Value.bool (@Num.order_cases (.int x) (.int y) properA properB).2.2
  case integer.decimal x y =>
    exact congrArg Value.bool (@Num.order_cases (.int x) (.float y) properA properB).2.2
  case decimal.integer x y =>
    exact congrArg Value.bool (@Num.order_cases (.float x) (.int y) properA properB).2.2
  case decimal.decimal x y =>
    exact congrArg Value.bool (@Num.order_cases (.float x) (.float y) properA properB).2.2

theorem lt_settled {a b : Value} (properA : a.Proper) (properB : b.Proper) : Settled .lt [a, b] := by
  refine settled_flipped ?_ rfl rfl (congrArg Except.ok (ordered_lt properA properB)) rfl
  rcases outOfOrder_truth a b lexLt Binary64.lt with ⟨null, straight, -⟩ | truth
  · exact Or.inl ⟨null, straight⟩
  · exact Or.inr truth

theorem lte_settled {a b : Value} (properA : a.Proper) (properB : b.Proper) : Settled .lte [a, b] := by
  refine settled_flipped ?_ rfl rfl (congrArg Except.ok (ordered_le properA properB)) rfl
  rcases outOfOrder_truth a b (fun s t => !lexLt t s) Binary64.le with ⟨null, -, straight⟩ | truth
  · exact Or.inl ⟨null, straight⟩
  · exact Or.inr truth

theorem ordered_swap (numbers : Binary64 → Binary64 → Bool) (texts : List Nat → List Nat → Bool) (a b : Value) :
    Reference.ordered (fun x y => numbers y x) (fun s t => texts t s) a b = Reference.ordered numbers texts b a := by
  cases a <;> cases b <;> rfl

theorem compare_swap (numbers : Binary64 → Binary64 → Bool) (texts : List Nat → List Nat → Bool) (a b : Value) :
    Evaluator.compare (fun s t => texts t s) (fun x y => numbers y x) a b = Evaluator.compare texts numbers b a := by
  cases a <;> cases b <;> rfl

theorem gt_settled {a b : Value} (properA : a.Proper) (properB : b.Proper) : Settled .gt [a, b] := by
  obtain ⟨together, apart⟩ := lt_settled properB properA
  have left : Reference.operate .gt [a, b] = Reference.operate .lt [b, a] :=
    congrArg Except.ok (ordered_swap Binary64.lt lexLt a b)
  have right : Evaluator.operate .gt [a, b] = Evaluator.operate .lt [b, a] :=
    congrArg Except.ok (compare_swap Binary64.lt lexLt a b)
  exact Settled.of rfl rfl left right together apart

theorem gte_settled {a b : Value} (properA : a.Proper) (properB : b.Proper) : Settled .gte [a, b] := by
  obtain ⟨together, apart⟩ := lte_settled properB properA
  have left : Reference.operate .gte [a, b] = Reference.operate .lte [b, a] :=
    congrArg Except.ok (ordered_swap Binary64.le (fun s t => !lexLt t s) a b)
  have right : Evaluator.operate .gte [a, b] = Evaluator.operate .lte [b, a] :=
    congrArg Except.ok (compare_swap Binary64.le (fun s t => !lexLt t s) a b)
  exact Settled.of rfl rfl left right together apart

theorem sameAll_texts {xs ys : List Value} (textsX : ∀ item ∈ xs, ∃ text, item = .text text)
    (textsY : ∀ item ∈ ys, ∃ text, item = .text text) : Reference.sameAll xs ys = Evaluator.sameAll xs ys := by
  induction xs generalizing ys with
  | nil => cases ys <;> rfl
  | cons x xs ih =>
    cases ys with
    | nil => rfl
    | cons y ys =>
      obtain ⟨s, rfl⟩ := textsX x List.mem_cons_self
      obtain ⟨t, rfl⟩ := textsY y List.mem_cons_self
      have rest := ih (fun item member => textsX item (List.mem_cons_of_mem _ member))
        (fun item member => textsY item (List.mem_cons_of_mem _ member))
      rw [Reference.sameAll, Evaluator.sameAll, rest, Reference.same, Evaluator.same]

theorem equal_eq {a b : Value} (properA : a.Proper) (properB : b.Proper) (presentA : a.isNull = false)
    (presentB : b.isNull = false) : Reference.equal a b = some (Evaluator.equalValues a b ^^ merged a b) := by
  cases a <;> cases b <;>
    first
      | exact properA.elim
      | exact properB.elim
      | exact Bool.noConfusion presentA
      | exact Bool.noConfusion presentB
      | rfl
      | skip
  case integer.integer x y => exact congrArg some (@Num.order_cases (.int x) (.int y) properA properB).2.1
  case integer.decimal x y => exact congrArg some (@Num.order_cases (.int x) (.float y) properA properB).2.1
  case decimal.integer x y => exact congrArg some (@Num.order_cases (.float x) (.int y) properA properB).2.1
  case decimal.decimal x y => exact congrArg some (@Num.order_cases (.float x) (.float y) properA properB).2.1
  case text.text s t =>
    simp [Reference.equal, Value.isNull, Reference.number, Reference.sameType, Reference.same,
      Evaluator.equalValues, Evaluator.asDouble, Evaluator.same, merged]
  case bool.bool x y => cases x <;> cases y <;> decide
  case sequence.sequence xs ys =>
    simp [Reference.equal, Value.isNull, Reference.number, Reference.sameType, Reference.same,
      Evaluator.equalValues, Evaluator.asDouble, Evaluator.same, merged, sameAll_texts properA properB]

theorem compareEqual_truth (a b : Value) (negated : Bool) :
    (Evaluator.compareEqual negated a b = .null ∧ merged a b = false) ∨
      ∃ p, Evaluator.compareEqual negated a b = .bool p := by
  cases a <;> cases b <;> first | exact Or.inr ⟨_, rfl⟩ | exact Or.inl ⟨rfl, rfl⟩

theorem compareEqual_eq {a b : Value} (properA : a.Proper) (properB : b.Proper) (negated : Bool) :
    Reference.ofTruth ((Reference.equal a b).map (negated ^^ ·)) =
      flipped (merged a b) (Evaluator.compareEqual negated a b) := by
  cases presentA : a.isNull with
  | true =>
    cases a <;> first | exact Bool.noConfusion presentA | rfl
  | false =>
    cases presentB : b.isNull with
    | true => cases b <;> first | exact Bool.noConfusion presentB | (cases a <;> rfl)
    | false =>
      rw [equal_eq properA properB presentA presentB, Evaluator.compareEqual, presentA, presentB]
      show Value.bool _ = Value.bool _
      rw [Bool.xor_assoc]

theorem eq_settled {a b : Value} (properA : a.Proper) (properB : b.Proper) : Settled .eq [a, b] := by
  refine settled_flipped (compareEqual_truth a b false) rfl rfl ?_ rfl
  rw [← compareEqual_eq properA properB]
  simp only [Bool.false_xor, Option.map_id']
  rfl

theorem ne_settled {a b : Value} (properA : a.Proper) (properB : b.Proper) : Settled .ne [a, b] := by
  refine settled_flipped (compareEqual_truth a b true) rfl rfl ?_ rfl
  rw [← compareEqual_eq properA properB]
  simp only [Bool.true_xor]
  rfl

theorem any_congr_mem {items : List Value} {p q : Value → Bool} (each : ∀ item ∈ items, p item = q item) :
    items.any p = items.any q := by
  rw [Bool.eq_iff_iff, List.any_eq_true, List.any_eq_true]
  constructor
  · rintro ⟨item, member, holds⟩
    exact ⟨item, member, each item member ▸ holds⟩
  · rintro ⟨item, member, holds⟩
    exact ⟨item, member, (each item member).symm ▸ holds⟩

theorem contained_eq {a b : Value} (properA : a.Proper) (properB : b.Proper) :
    Reference.contained a b = flipped (merged a b) (Evaluator.selected a b) := by
  cases presentA : a.isNull with
  | true => cases a <;> first | exact Bool.noConfusion presentA | rfl
  | false =>
    cases presentB : b.isNull with
    | true => cases b <;> first | exact Bool.noConfusion presentB | (cases a <;> rfl)
    | false =>
      have lone (alone : Reference.seq a = [a]) (single : Evaluator.selected a b = .bool (Evaluator.equalValues a b)) :
          Reference.contained a b = flipped (merged a b) (Evaluator.selected a b) := by
        rw [Reference.contained, presentA, presentB, alone, single, flipped]
        rw [Bool.or_self, if_neg Bool.false_ne_true, List.any_cons, List.any_nil, Bool.or_false,
          equal_eq properA properB presentA presentB]
        cases Evaluator.equalValues a b <;> cases merged a b <;> rfl
      cases a with
      | sequence items =>
        have each : ∀ item ∈ items, decide (Reference.equal item b = some true) = Evaluator.equalValues item b := by
          intro item member
          obtain ⟨text, rfl⟩ := properA item member
          have apart : merged (.text text) b = false := rfl
          rw [@equal_eq (.text text) b trivial properB rfl presentB, apart, Bool.xor_false]
          cases Evaluator.equalValues (.text text) b <;> rfl
        rw [Reference.contained, Evaluator.selected, presentA, presentB]
        show Value.bool (items.any _) = Value.bool (items.any _ ^^ false)
        rw [Bool.xor_false, any_congr_mem each]
      | null => exact Bool.noConfusion presentA
      | dateValue iso => exact properA.elim
      | geoPoint lat lon alt accuracy => exact properA.elim
      | mediaRef id filename hash size => exact properA.elim
      | text value => exact lone rfl (by simp [Evaluator.selected, presentA, presentB])
      | integer n => exact lone rfl (by simp [Evaluator.selected, presentA, presentB])
      | decimal d => exact lone rfl (by simp [Evaluator.selected, presentA, presentB])
      | bool value => exact lone rfl (by simp [Evaluator.selected, presentA, presentB])

theorem selected_truth (a b : Value) :
    (Evaluator.selected a b = .null ∧ merged a b = false) ∨ ∃ p, Evaluator.selected a b = .bool p := by
  cases a <;> cases b <;> first | exact Or.inr ⟨_, rfl⟩ | exact Or.inl ⟨rfl, rfl⟩

theorem selected_settled {a b : Value} (properA : a.Proper) (properB : b.Proper) : Settled .selected [a, b] :=
  settled_flipped (selected_truth a b) rfl rfl (congrArg Except.ok (contained_eq properA properB)) rfl

theorem merged_comm (a b : Value) : merged b a = merged a b := by
  unfold merged
  cases Reference.number a <;> cases Reference.number b <;> simp only [Bool.or_comm]

theorem in_settled {a b : Value} (properA : a.Proper) (properB : b.Proper) : Settled .isIn [a, b] := by
  refine settled_flipped (selected_truth b a) ?_ rfl (congrArg Except.ok (contained_eq properB properA)) rfl
  rw [merged_comm]
  rfl

theorem boolean_eq (a : Value) : Reference.boolean a = Evaluator.asBool a := by
  cases a <;> rfl

theorem and_settled (args : List Value) : Settled .and args := by
  have equal : Reference.and args = Evaluator.and args := by
    simp [Reference.and, Evaluator.and, boolean_eq, List.any_map, Function.comp_def]
  refine settled_of_eq id (congrArg Except.ok equal) ?_
  simp only [Evaluator.operate, Evaluator.and]
  split_ifs <;> trivial

theorem or_settled (args : List Value) : Settled .or args := by
  have equal : Reference.or args = Evaluator.or args := by
    simp [Reference.or, Evaluator.or, boolean_eq, List.any_map, Function.comp_def]
  refine settled_of_eq id (congrArg Except.ok equal) ?_
  simp only [Evaluator.operate, Evaluator.or]
  split_ifs <;> trivial

theorem not_settled (a : Value) : Settled .not [a] := by
  cases a <;> exact settled_of_eq id rfl trivial

def Operator.Takes : Operator → ℕ → Prop
  | .cond, n => n = 3
  | .and, _ | .or, _ => True
  | .not, n | .neg, n => n = 1
  | _, n => n = 2

theorem add_settled {a b : Value} (properA : a.Proper) (properB : b.Proper) : Settled .add [a, b] := by
  obtain ⟨equal, fine⟩ := arith_eq Evaluator.addExact_eq Binary64.isDouble_add properA properB
  exact settled_of_eq id equal fine

theorem sub_settled {a b : Value} (properA : a.Proper) (properB : b.Proper) : Settled .sub [a, b] := by
  obtain ⟨equal, fine⟩ :=
    arith_eq Evaluator.subtractExact_eq (fun x y => Binary64.isDouble_add x y.neg) properA properB
  exact settled_of_eq id equal fine

theorem mul_settled {a b : Value} (properA : a.Proper) (properB : b.Proper) : Settled .mul [a, b] := by
  obtain ⟨equal, fine⟩ := arith_eq Evaluator.multiplyExact_eq Binary64.isDouble_mul properA properB
  exact settled_of_eq id equal fine

theorem settled {op : Operator} {args : List Value} (other : op ≠ .cond) (takes : op.Takes args.length)
    (proper : ∀ value ∈ args, value.Proper) : Settled op args := by
  have one (single : args.length = 1) : ∃ a, args = [a] ∧ a.Proper := by
    obtain ⟨a, rfl⟩ := List.length_eq_one_iff.mp single
    exact ⟨a, rfl, proper a (by simp)⟩
  have two (pair : args.length = 2)
      (each : ∀ {a b : Value}, a.Proper → b.Proper → Settled op [a, b]) : Settled op args := by
    obtain ⟨a, b, rfl⟩ := List.length_eq_two.mp pair
    exact each (proper a (by simp)) (proper b (by simp))
  cases op with
  | cond => exact absurd rfl other
  | and => exact and_settled args
  | or => exact or_settled args
  | not =>
    obtain ⟨a, rfl, -⟩ := one takes
    exact not_settled a
  | neg =>
    obtain ⟨a, rfl, properA⟩ := one takes
    exact neg_settled properA
  | add => exact two takes add_settled
  | sub => exact two takes sub_settled
  | mul => exact two takes mul_settled
  | div => exact two takes div_settled
  | idiv => exact two takes idiv_settled
  | mod => exact two takes mod_settled
  | eq => exact two takes eq_settled
  | ne => exact two takes ne_settled
  | lt => exact two takes lt_settled
  | lte => exact two takes lte_settled
  | gt => exact two takes gt_settled
  | gte => exact two takes gte_settled
  | selected => exact two takes selected_settled
  | isIn => exact two takes in_settled

end Operands

section Short

end Short

end DataCollectionLab.Form
