import DataCollectionLab.Form.FunctionAgreement

/-!
What the reference engine promises of an evaluation: a value whose integers have 64 bits, or the overflow
error. `OpBreaks` and `CallBreaks` say which applications do not keep it.
-/

namespace DataCollectionLab.Form

open Lib

namespace Reference

/-- A form value: its integers have 64 bits, and so do those within its sequences. -/
inductive Held : Value → Prop
  | null : Held .null
  | text (s : String) : Held (.text s)
  | bool (value : Bool) : Held (.bool value)
  | integer {n : ℤ} : inRange n = true → Held (.integer n)
  | decimal (d : Binary64) : Held (.decimal d)
  | sequence {items : List Value} : (∀ item ∈ items, Held item) → Held (.sequence items)

def Total : Except Failure Value → Prop
  | .ok value => Held value
  | .error failure => failure = .overflow

theorem held_integer_iff {n : ℤ} : Held (.integer n) ↔ inRange n = true :=
  ⟨fun held => by cases held; assumption, Held.integer⟩

theorem number_short {a : Value} (held : Held a) {x : Num} (is : number a = some x) : x.Short := by
  cases held with
  | integer range =>
    obtain rfl := Option.some.inj is
    exact range
  | decimal d =>
    obtain rfl := Option.some.inj is
    trivial
  | null => cases is
  | text s => cases is
  | bool value => cases is
  | sequence items => cases is

def Fits : Binary64 → Prop
  | .finite q => inRange (Binary64.truncated q) = true
  | .inf _ | .nan => False

theorem not_total_raised (name : String) : ¬ Total (.error (.raised name)) := Failure.noConfusion

theorem total_ofFloat_iff (d : Binary64) :
    Total (do return .integer (← intOfFloat d)) ↔ Fits d := by
  cases d with
  | finite q => exact held_integer_iff
  | inf negative => exact iff_of_false (not_total_raised _) id
  | nan => exact iff_of_false (not_total_raised _) id

section Operators

def QuotientBreaks : Num → Num → Prop
  | .int x, .int y => x = -2 ^ 63 ∧ y = -1
  | x, y => y.double.eq (.finite 0) = false ∧ ¬ Fits (floatFloorDiv x.double y.double)

def OpBreaks : Operator → List Value → Prop
  | .neg, [.integer n] => n = -2 ^ 63
  | .idiv, [a, b] => ∃ x y, number a = some x ∧ number b = some y ∧ QuotientBreaks x y
  | _, _ => False

theorem neg_total {a : Value} (held : Held a) : Total (operate .neg [a]) ↔ ¬ OpBreaks .neg [a] := by
  cases held with
  | @integer n range =>
    have bounds := inRange_iff.mp range
    show Held (.integer (-n)) ↔ ¬ n = -2 ^ 63
    rw [held_integer_iff, inRange_iff]
    omega
  | decimal d => exact ⟨fun _ => id, fun _ => Held.decimal _⟩
  | null => exact ⟨fun _ => id, fun _ => Held.null⟩
  | text s => exact ⟨fun _ => id, fun _ => Held.null⟩
  | bool value => exact ⟨fun _ => id, fun _ => Held.null⟩
  | sequence items => exact ⟨fun _ => id, fun _ => Held.null⟩

theorem fdiv_inRange_iff {x y : ℤ} (range : inRange x = true) (divisor : y ≠ 0) :
    inRange (x.fdiv y) = true ↔ ¬ (x = -2 ^ 63 ∧ y = -1) := by
  have bounds := inRange_iff.mp range
  have whole := Int.mul_fdiv_add_fmod x y
  rw [inRange_iff]
  by_cases minus : y = -1
  · subst minus
    have rest : x.fmod (-1) = 0 := Int.fmod_eq_zero_of_dvd ⟨-x, by ring⟩
    omega
  refine iff_of_true ?_ fun both => minus both.2
  generalize x.fdiv y = q at whole ⊢
  rcases lt_or_gt_of_ne divisor with negative | positive
  · have mirrored := Int.neg_fmod_neg x y
    have above := Int.fmod_nonneg_of_pos (-x) (Int.neg_pos.mpr negative)
    have below := Int.fmod_lt_of_pos (-x) (Int.neg_pos.mpr negative)
    generalize x.fmod y = r at whole mirrored
    have steep : y ≤ -2 := by omega
    constructor <;> by_contra out <;> nlinarith
  · have above := Int.fmod_nonneg_of_pos x positive
    have below := Int.fmod_lt_of_pos x positive
    generalize x.fmod y = r at whole above below
    constructor <;> by_contra out <;> nlinarith

theorem fmod_inRange {x y : ℤ} (rangeX : inRange x = true) (rangeY : inRange y = true) :
    inRange (x.fmod y) = true := by
  have boundsX := inRange_iff.mp rangeX
  have boundsY := inRange_iff.mp rangeY
  rw [inRange_iff]
  rcases lt_trichotomy y 0 with negative | rfl | positive
  · have mirrored := Int.neg_fmod_neg x y
    have above := Int.fmod_nonneg_of_pos (-x) (Int.neg_pos.mpr negative)
    have below := Int.fmod_lt_of_pos (-x) (Int.neg_pos.mpr negative)
    omega
  · rw [Int.fmod_zero]
    exact boundsX
  · have above := Int.fmod_nonneg_of_pos x positive
    have below := Int.fmod_lt_of_pos x positive
    omega

theorem checked_total (n : ℤ) : Total (checked n) := by
  unfold checked
  split
  · rename_i range
    exact Held.integer range
  · rfl

theorem arith_total (ints : ℤ → ℤ → ℤ) (floats : Binary64 → Binary64 → Binary64) {a b : Value} (heldA : Held a)
    (heldB : Held b) : Total (arith ints floats a b) := by
  unfold arith
  cases isA : number a with
  | none => exact Held.null
  | some x =>
    cases isB : number b with
    | none => cases x <;> exact Held.null
    | some y =>
      have floated : Total (do
          let x ← toFloat x
          let y ← toFloat y
          return Value.decimal (floats x y)) := by
        rw [toFloat_eq (number_short heldA isA), toFloat_eq (number_short heldB isB)]
        exact Held.decimal _
      cases x with
      | float d => exact floated
      | int m =>
        cases y with
        | float d => exact floated
        | int n => exact checked_total _

theorem quotient_total {x y : Num} (shortX : x.Short) (shortY : y.Short) {a b : Value}
    (isA : number a = some x) (isB : number b = some y) : Total (idiv a b) ↔ ¬ QuotientBreaks x y := by
  have floated : Total (if isZero y then .ok .null
      else do return .integer (← intOfFloat (floatFloorDiv (← toFloat x) (← toFloat y)))) ↔
      ¬ (y.double.eq (.finite 0) = false ∧ ¬ Fits (floatFloorDiv x.double y.double)) := by
    rw [isZero_eq shortY, toFloat_eq shortX, toFloat_eq shortY]
    cases zero : y.double.eq (.finite 0) with
    | true => exact iff_of_true Held.null (by simp)
    | false =>
      simp only [Bool.false_eq_true, if_false, true_and, not_not]
      exact total_ofFloat_iff _
  unfold idiv
  rw [isA, isB]
  cases x with
  | float d => exact floated
  | int m =>
    cases y with
    | float d => exact floated
    | int n =>
      by_cases zero : n = 0
      · subst zero
        simp only [isZero_int, decide_true, if_true]
        exact iff_of_true Held.null fun both => by simp [QuotientBreaks] at both
      · simp only [isZero_int, zero, decide_false, Bool.false_eq_true, if_false]
        exact held_integer_iff.trans (fdiv_inRange_iff shortX zero)

theorem idiv_total {a b : Value} (heldA : Held a) (heldB : Held b) :
    Total (operate .idiv [a, b]) ↔ ¬ OpBreaks .idiv [a, b] := by
  show Total (idiv a b) ↔ ¬ ∃ x y, number a = some x ∧ number b = some y ∧ QuotientBreaks x y
  cases isA : number a with
  | none =>
    have null : idiv a b = .ok .null := by
      unfold idiv
      rw [isA]
    rw [null]
    exact iff_of_true Held.null (by simp)
  | some x =>
    cases isB : number b with
    | none =>
      have null : idiv a b = .ok .null := by
        unfold idiv
        rw [isA, isB]
      rw [null]
      exact iff_of_true Held.null (by simp)
    | some y =>
      rw [quotient_total (number_short heldA isA) (number_short heldB isB) isA isB]
      simp

theorem mod_total {a b : Value} (heldA : Held a) (heldB : Held b) : Total (mod a b) := by
  unfold mod
  cases isA : number a with
  | none => exact Held.null
  | some x =>
    cases isB : number b with
    | none => exact Held.null
    | some y =>
      have shortX := number_short heldA isA
      have shortY := number_short heldB isB
      dsimp only
      split
      · exact Held.null
      have floated : Total (do return .decimal (floatRem (← toFloat x) (← toFloat y))) := by
        rw [toFloat_eq shortX, toFloat_eq shortY]
        exact Held.decimal _
      cases x with
      | float d => exact floated
      | int m =>
        cases y with
        | float d => exact floated
        | int n => exact Held.integer (fmod_inRange shortX shortY)

theorem div_total {a b : Value} (heldA : Held a) (heldB : Held b) : Total (div a b) := by
  unfold div
  cases isA : number a with
  | none => exact Held.null
  | some x =>
    cases isB : number b with
    | none => exact Held.null
    | some y =>
      have shortX := number_short heldA isA
      have shortY := number_short heldB isB
      dsimp only
      split
      · exact Held.null
      rename_i nonzero
      have floated : Total (do return .decimal ((← toFloat x).div (← toFloat y))) := by
        rw [toFloat_eq shortX, toFloat_eq shortY]
        exact Held.decimal _
      cases x with
      | float d => exact floated
      | int m =>
        cases y with
        | float d => exact floated
        | int n =>
          have divisor : n ≠ 0 := by simpa using nonzero
          have small := abs_quotient_le (abs_le_of_inRange shortX) (Binary64.one_le_abs divisor)
          simp only [trueDiv, Binary64.round_of_abs_le small]
          exact Held.decimal _

theorem truth_held (truth : Option Bool) : Held (ofTruth truth) := by
  cases truth with
  | none => exact Held.null
  | some value => exact Held.bool value

theorem ordered_held (numbers : Binary64 → Binary64 → Bool) (texts : List Nat → List Nat → Bool) (a b : Value) :
    Held (ordered numbers texts a b) := by
  cases a <;> cases b <;> first | exact Held.null | exact Held.bool _

theorem contained_held (a b : Value) : Held (contained a b) := by
  unfold contained
  split
  · exact Held.null
  · exact Held.bool _

theorem and_held (args : List Value) : Held (and args) := by
  unfold and
  split_ifs
  · exact Held.bool _
  · exact Held.null
  · exact Held.bool _

theorem or_held (args : List Value) : Held (or args) := by
  unfold or
  split_ifs
  · exact Held.bool _
  · exact Held.null
  · exact Held.bool _

theorem not_held (a : Value) : Held (not a) := by
  cases a <;> first | exact Held.null | exact Held.bool _

theorem operate_total {op : Operator} {args : List Value} (other : op ≠ .cond) (takes : op.Takes args.length)
    (held : ∀ value ∈ args, Held value) : Total (operate op args) ↔ ¬ OpBreaks op args := by
  have one (single : args.length = 1) (each : ∀ {a : Value}, Held a → (Total (operate op [a]) ↔ ¬ OpBreaks op [a])) :
      Total (operate op args) ↔ ¬ OpBreaks op args := by
    obtain ⟨a, rfl⟩ := List.length_eq_one_iff.mp single
    exact each (held a (by simp))
  have two (pair : args.length = 2) (each : ∀ {a b : Value}, Held a → Held b →
      (Total (operate op [a, b]) ↔ ¬ OpBreaks op [a, b])) : Total (operate op args) ↔ ¬ OpBreaks op args := by
    obtain ⟨a, b, rfl⟩ := List.length_eq_two.mp pair
    exact each (held a (by simp)) (held b (by simp))
  cases op with
  | cond => exact absurd rfl other
  | and => exact iff_of_true (and_held args) id
  | or => exact iff_of_true (or_held args) id
  | not => exact one takes fun _ => iff_of_true (not_held _) id
  | neg => exact one takes neg_total
  | add => exact two takes fun heldA heldB => iff_of_true (arith_total _ _ heldA heldB) id
  | sub => exact two takes fun heldA heldB => iff_of_true (arith_total _ _ heldA heldB) id
  | mul => exact two takes fun heldA heldB => iff_of_true (arith_total _ _ heldA heldB) id
  | div => exact two takes fun heldA heldB => iff_of_true (div_total heldA heldB) id
  | idiv => exact two takes idiv_total
  | mod => exact two takes fun heldA heldB => iff_of_true (mod_total heldA heldB) id
  | eq => exact two takes fun _ _ => iff_of_true (truth_held _) id
  | ne => exact two takes fun _ _ => iff_of_true (truth_held _) id
  | lt => exact two takes fun _ _ => iff_of_true (ordered_held _ _ _ _) id
  | lte => exact two takes fun _ _ => iff_of_true (ordered_held _ _ _ _) id
  | gt => exact two takes fun _ _ => iff_of_true (ordered_held _ _ _ _) id
  | gte => exact two takes fun _ _ => iff_of_true (ordered_held _ _ _ _) id
  | selected => exact two takes fun _ _ => iff_of_true (contained_held _ _) id
  | isIn => exact two takes fun _ _ => iff_of_true (contained_held _ _) id

end Operators

section Numbers

theorem ofInt_finite {n : ℤ} (range : inRange n = true) : (Binary64.ofInt n).isFinite = true := by
  rw [ofInt_eq range]
  rfl

/-- A sum that breaks: of integers, where their total is no integer of 64 bits; with a double among them,
where those before it have no double. -/
def SumBreaks (total : ℤ) : List Num → Prop
  | [] => inRange total = false
  | .int n :: rest => SumBreaks (total + n) rest
  | .float _ :: _ => (Binary64.ofInt total).isFinite = false

theorem numbers_short {a : Value} (held : Held a) : ∀ x ∈ numbers a, x.Short := by
  intro x member
  obtain ⟨item, within, is⟩ := List.mem_filterMap.mp member
  refine number_short ?_ is
  cases held with
  | sequence each => exact each item within
  | null => exact absurd within List.not_mem_nil
  | _ =>
    obtain rfl := List.mem_singleton.mp within
    constructor <;> assumption

theorem sumAny_float {rest : List Num} (short : ∀ x ∈ rest, x.Short) (total : Binary64) :
    ∃ result, sumAny (.float total) rest = .ok (.float result) := by
  induction rest generalizing total with
  | nil => exact ⟨total, rfl⟩
  | cons x rest ih =>
    have added : plus (.float total) x = .ok (.float (total.add x.double)) := by
      have float := toFloat_eq (short x List.mem_cons_self)
      cases x <;> simp only [plus, float] <;> rfl
    obtain ⟨result, is⟩ := ih (fun y member => short y (List.mem_cons_of_mem _ member)) (total.add x.double)
    exact ⟨result, by rw [sumAny, added]; exact is⟩

theorem sumFloats_float {rest : List Num} (short : ∀ x ∈ rest, x.Short) (total lost : Binary64) :
    ∃ result, sumFloats total lost rest = .ok (.float result) := by
  induction rest generalizing total lost with
  | nil => exact ⟨_, rfl⟩
  | cons x rest ih =>
    have later := ih fun y member => short y (List.mem_cons_of_mem _ member)
    cases x with
    | float d => exact later _ _
    | int n =>
      have range : inRange n = true := short (.int n) List.mem_cons_self
      rw [sumFloats, if_pos range]
      exact later _ _

theorem sumAny_total {rest : List Num} (short : ∀ x ∈ rest, x.Short) (total : ℤ) :
    Total (do return valueOf (← sumAny (.int total) rest)) ↔ ¬ SumBreaks total rest := by
  induction rest generalizing total with
  | nil =>
    show Held (.integer total) ↔ ¬ inRange total = false
    rw [held_integer_iff, Bool.not_eq_false]
  | cons x rest ih =>
    have later := fun y member => short y (List.mem_cons_of_mem _ member)
    cases x with
    | int n => exact ih later (total + n)
    | float d =>
      rw [sumAny, SumBreaks]
      cases double : Binary64.ofInt total with
      | inf negative =>
        have raised : plus (.int total) (.float d) = .error (.raised "OverflowError") := by
          simp only [plus, toFloat, double]
          rfl
        rw [raised]
        exact iff_of_false (not_total_raised _) (not_not.mpr rfl)
      | finite q =>
        have added : plus (.int total) (.float d) = .ok (.float ((Binary64.finite q).add d)) := by
          simp only [plus, toFloat, double]
          rfl
        obtain ⟨result, is⟩ := sumAny_float later ((Binary64.finite q).add d)
        rw [added]
        show Total (do return valueOf (← sumAny (.float ((Binary64.finite q).add d)) rest)) ↔ _
        rw [is]
        exact iff_of_true (Held.decimal _) Bool.noConfusion
      | nan => exact absurd double (Binary64.round_ne_nan _)

theorem sumInts_total {rest : List Num} (short : ∀ x ∈ rest, x.Short) {total : ℤ} (range : inRange total = true) :
    Total (do return valueOf (← sumInts total rest)) ↔ ¬ SumBreaks total rest := by
  induction rest generalizing total with
  | nil => exact iff_of_true (Held.integer range) (by simp [SumBreaks, range])
  | cons x rest ih =>
    have later := fun y member => short y (List.mem_cons_of_mem _ member)
    cases x with
    | int n =>
      rw [sumInts, SumBreaks]
      split
      · rename_i both
        exact ih later both.2
      · exact sumAny_total later (total + n)
    | float d =>
      obtain ⟨result, is⟩ := sumFloats_float later ((Binary64.ofInt total).add d) (.finite 0)
      rw [sumInts, is, SumBreaks, ofInt_finite range]
      exact iff_of_true (Held.decimal _) Bool.noConfusion

theorem sum_total {a : Value} (held : Held a) : Total (sum a) ↔ ¬ SumBreaks 0 (numbers a) :=
  sumInts_total (numbers_short held) (by decide)

/-- What `int` reads its argument as. -/
def reading : Value → Option Binary64
  | .integer n => some (.ofInt n)
  | .decimal d => some d
  | .text s => float s
  | _ => none

theorem asNumber_eq {a : Value} (held : Held a) : asNumber a = .ok (reading a) := by
  cases held with
  | @integer n range =>
    have float := @toFloat_eq (.int n) range
    simp only [asNumber, float]
    rfl
  | _ => rfl

theorem castInt_total {a : Value} (held : Held a) :
    Total (castInt a) ↔ ¬ ∃ d, reading a = some d ∧ ¬ Fits d := by
  rw [castInt, asNumber_eq held]
  cases reading a with
  | none => exact iff_of_true Held.null (by simp)
  | some d =>
    refine (total_ofFloat_iff d).trans ?_
    simp

theorem castDec_total {a : Value} (held : Held a) : Total (castDec a) := by
  rw [castDec, asNumber_eq held]
  cases reading a with
  | none => exact Held.null
  | some d => exact Held.decimal d

theorem valueOf_held {x : Num} (short : x.Short) : Held (valueOf x) := by
  cases x with
  | int n => exact Held.integer short
  | float d => exact Held.decimal d

theorem extreme_held (before : Binary64 → Binary64 → Bool) {a : Value} (held : Held a) :
    Held (extreme before (numbers a)) := by
  have short := numbers_short held
  unfold extreme
  split
  · exact Held.null
  · rename_i x rest same
    rw [same] at short
    apply valueOf_held
    refine List.foldlRecOn rest _ (short x List.mem_cons_self) fun best shortBest y member => ?_
    split
    · exact short y (List.mem_cons_of_mem _ member)
    · exact shortBest

end Numbers

section Rounding

/-- The digits that `round` is given. -/
def roundDigits : List Value → Option ℤ
  | [] | .null :: _ => some 0
  | b :: _ => (integer b).filter fun n => |n| ≤ maxRoundDigits

def scaled (x : Num) (digits : ℤ) : Num :=
  match x, power digits with
  | .int m, .int n => .int (m * n)
  | x, y => .float (x.double.mul y.double)

def halved (x : Num) : Binary64 :=
  if Binary64.le (.finite 0) x.exact then (x.double.add (.finite (1 / 2))).floor
  else (x.double.sub (.finite (1 / 2))).ceil

def RoundBreaks (x : Num) (digits : ℤ) : Prop :=
  if 0 < digits then (halved (scaled x digits)).isFinite = false else ¬ Fits (halved (scaled x digits))

theorem power_le {digits : ℤ} (high : |digits| ≤ maxRoundDigits) : (10 : ℤ) ^ digits.toNat ≤ 10 ^ 15 := by
  have bounds := abs_le.mp high
  unfold maxRoundDigits at bounds
  exact pow_le_pow_right₀ (by norm_num) (by omega)

theorem toFloat_places {m : ℤ} (range : inRange m = true) {digits : ℤ} (high : |digits| ≤ maxRoundDigits) :
    toFloat (.int (m * 10 ^ digits.toNat)) = .ok (Num.double (.int (m * 10 ^ digits.toNat))) := by
  have bounds := abs_le_of_inRange range
  have places : (10 : ℚ) ^ digits.toNat ≤ 10 ^ 15 := by exact_mod_cast power_le high
  have small : |((m * 10 ^ digits.toNat : ℤ) : ℚ)| ≤ 2 ^ 113 := by
    push_cast
    rw [abs_mul, abs_of_pos (show (0 : ℚ) < 10 ^ digits.toNat by positivity)]
    calc _ ≤ (2 : ℚ) ^ 63 * 10 ^ 15 := by gcongr
      _ ≤ 2 ^ 113 := by norm_num
  have double := Binary64.round_of_abs_le_pow (by norm_num) small
  simp only [toFloat, Num.double, Binary64.ofInt, double]

theorem power_double {digits : ℤ} (high : |digits| ≤ maxRoundDigits) :
    toFloat (power digits) = .ok (power digits).double := by
  unfold power
  split
  · have one := @toFloat_places 1 (by decide) digits high
    rwa [one_mul] at one
  · rfl

theorem times_eq {x : Num} (short : x.Short) {digits : ℤ} (high : |digits| ≤ maxRoundDigits) :
    times x (power digits) = .ok (scaled x digits) ∧ toFloat (scaled x digits) = .ok (scaled x digits).double := by
  have left := toFloat_eq short
  have right := power_double high
  cases x with
  | float d =>
    unfold times scaled
    cases is : power digits with
    | float y => exact ⟨rfl, rfl⟩
    | int n =>
      rw [is] at right
      simp only [right]
      exact ⟨rfl, rfl⟩
  | int m =>
    by_cases whole : 0 ≤ digits
    · have is : power digits = .int (10 ^ digits.toNat) := if_pos whole
      simp only [scaled, times, is]
      exact ⟨trivial, toFloat_places short high⟩
    · have is : power digits = .float (.round (10 ^ digits)) := if_neg whole
      rw [is] at right
      simp only [scaled, times, is, left, right]
      exact ⟨rfl, rfl⟩

theorem roundHalf_eq {x : Num} (float : toFloat x = .ok x.double) : roundHalf x = intOfFloat (halved x) := by
  unfold roundHalf halved
  rw [float]
  split <;> rfl

theorem abs_floor_le {a : ℚ} {k : ℤ} (small : |a| ≤ k) : |(⌊a⌋ : ℚ)| ≤ k := by
  obtain ⟨below, above⟩ := abs_le.mp small
  have low : -k ≤ ⌊a⌋ := Int.le_floor.mpr (by push_cast; exact below)
  have high : ⌊a⌋ ≤ k := Int.cast_le.mp ((Int.floor_le a).trans above)
  rw [abs_le]
  exact ⟨by exact_mod_cast low, by exact_mod_cast high⟩

theorem limit_eq : ((2 ^ 1024 : ℤ) : ℚ) = Binary64.limit := by
  rw [Int.cast_pow, Int.cast_ofNat]
  rfl

theorem limit_half : Binary64.limit = 2 ^ 1023 * 2 := by
  unfold Binary64.limit
  rw [← pow_succ]

@[simp] theorem truncated_intCast (n : ℤ) : Binary64.truncated n = n := by simp [Binary64.truncated]

theorem floor_limited {d : Binary64} (double : d.IsDouble) {q : ℚ} (is : d.floor = .finite q) :
    ∃ n : ℤ, q = n ∧ |(n : ℚ)| ≤ Binary64.limit := by
  cases d with
  | finite a =>
    obtain rfl := Binary64.finite.inj is
    refine ⟨⌊a⌋, rfl, ?_⟩
    rw [← limit_eq]
    exact abs_floor_le (limit_eq ▸ double.2.le)
  | inf negative => cases is
  | nan => cases is

theorem halved_limited {x : Num} {q : ℚ} (is : halved x = .finite q) :
    ∃ n : ℤ, q = n ∧ |(n : ℚ)| ≤ Binary64.limit := by
  unfold halved at is
  split at is
  · exact floor_limited (Binary64.isDouble_add _ _) is
  · unfold Binary64.ceil at is
    cases below : (x.double.sub (.finite (1 / 2))).neg.floor with
    | finite r =>
      rw [below] at is
      obtain rfl := Binary64.finite.inj is
      obtain ⟨n, rfl, small⟩ := floor_limited (Binary64.isDouble_neg (Binary64.isDouble_add _ _)) below
      refine ⟨-n, (Int.cast_neg n).symm, ?_⟩
      rw [Int.cast_neg, abs_neg]
      exact small
    | inf negative =>
      rw [below] at is
      cases is
    | nan =>
      rw [below] at is
      cases is

theorem trueDiv_places {n : ℤ} (size : |(n : ℚ)| ≤ Binary64.limit) {digits : ℤ} (positive : 0 < digits) :
    ∃ d, trueDiv n (10 ^ digits.toNat) = .ok d := by
  have tenth : (2 : ℚ) ≤ 10 ^ digits.toNat := by
    calc (2 : ℚ) ≤ 10 ^ 1 := by norm_num
      _ ≤ 10 ^ digits.toNat := pow_le_pow_right₀ (by norm_num) (by omega)
  have small : |(n : ℚ) / ((10 ^ digits.toNat : ℤ) : ℚ)| ≤ 2 ^ 1023 := by
    rw [Int.cast_pow, Int.cast_ofNat, abs_div, abs_of_pos (show (0 : ℚ) < 10 ^ digits.toNat by positivity),
      div_le_iff₀ (by positivity)]
    calc _ ≤ Binary64.limit := size
      _ = 2 ^ 1023 * 2 := limit_half
      _ ≤ 2 ^ 1023 * 10 ^ digits.toNat := mul_le_mul_of_nonneg_left tenth (pow_nonneg (by norm_num) _)
  have double := Binary64.round_of_abs_le_pow (by norm_num) small
  refine ⟨.finite (Binary64.nearest (n / ((10 ^ digits.toNat : ℤ) : ℚ))), ?_⟩
  simp only [trueDiv, double]

theorem roundDigits_le {others : List Value} {digits : ℤ} (is : roundDigits others = some digits) :
    |digits| ≤ maxRoundDigits := by
  unfold roundDigits at is
  split at is
  · obtain rfl := Option.some.inj is
    decide
  · obtain rfl := Option.some.inj is
    decide
  · exact of_decide_eq_true (Option.filter_eq_some_iff.mp is).2

theorem rounded_total {x : Num} {digits : ℤ} :
    Total (do
        let rounded ← intOfFloat (halved (scaled x digits))
        if 0 < digits then return .decimal (← trueDiv rounded (10 ^ digits.toNat)) else return .integer rounded) ↔
      ¬ RoundBreaks x digits := by
  unfold RoundBreaks
  by_cases places : 0 < digits
  · simp only [places, if_true]
    cases is : halved (scaled x digits) with
    | finite q =>
      obtain ⟨n, rfl, size⟩ := halved_limited is
      obtain ⟨d, divided⟩ := trueDiv_places size places
      refine iff_of_true ?_ Bool.noConfusion
      show Total (do return .decimal (← trueDiv (Binary64.truncated n) (10 ^ digits.toNat)))
      rw [truncated_intCast, divided]
      exact Held.decimal d
    | inf negative => exact iff_of_false (not_total_raised _) (not_not.mpr rfl)
    | nan => exact iff_of_false (not_total_raised _) (not_not.mpr rfl)
  · simp only [places, if_false, not_not]
    exact total_ofFloat_iff _

theorem round_total {a : Value} {others : List Value} (held : Held a) :
    Total (round (a :: others)) ↔
      ¬ ∃ x digits, number a = some x ∧ roundDigits others = some digits ∧ RoundBreaks x digits := by
  cases isA : number a with
  | none =>
    have given : round (a :: others) = .ok .null := by simp only [round, isA]
    rw [given]
    exact iff_of_true Held.null (by simp)
  | some x =>
    have digitsOf : round (a :: others) = (roundDigits others).elim (.ok .null) fun digits => do
        let rounded ← roundHalf (← times x (power digits))
        if 0 < digits then return .decimal (← trueDiv rounded (10 ^ digits.toNat)) else return .integer rounded := by
      simp only [round, isA]
      unfold roundDigits
      cases others with
      | nil => rfl
      | cons b rest =>
        cases b with
        | null => rfl
        | _ =>
          dsimp only
          split
          · rename_i refused
            rw [refused]
            rfl
          · rename_i digits given
            rw [given]
            rfl
    cases isB : roundDigits others with
    | none =>
      rw [digitsOf, isB]
      exact iff_of_true Held.null (by simp)
    | some digits =>
      obtain ⟨product, float⟩ := times_eq (number_short held isA) (roundDigits_le isB)
      rw [digitsOf, isB]
      simp only [Option.elim_some, product]
      show Total (do
        let rounded ← roundHalf (scaled x digits)
        if 0 < digits then return .decimal (← trueDiv rounded (10 ^ digits.toNat)) else return .integer rounded) ↔ _
      rw [roundHalf_eq float, rounded_total]
      simp

end Rounding

section Table

theorem length_held_iff {k : ℕ} : Held (.integer k) ↔ ¬ 2 ^ 63 ≤ k := by
  rw [held_integer_iff, inRange_iff]
  omega

theorem countSelected_eq (a : Value) : countSelected a = .integer (seq a).length := by
  cases a <;> rfl

theorem dateDiffDays_held (a b : Value) : Held (dateDiffDays a b) := by
  unfold dateDiffDays
  split
  · rename_i d e isA isB
    obtain ⟨validD, positiveD, boundedD⟩ := dateOrNone_spec isA
    obtain ⟨validE, positiveE, boundedE⟩ := dateOrNone_spec isB
    have first := ordinal_bounded validD positiveD boundedD
    have second := ordinal_bounded validE positiveE boundedE
    apply Held.integer
    rw [inRange_iff]
    omega
  · exact Held.null

theorem ageDate_spec {ctx : Context} {others : List Value} {d : Ymd} (is : ageDate ctx others = some d) :
    1 ≤ d.year ∧ d.year ≤ 9999 := by
  unfold ageDate at is
  split at is
  · exact (fromisoformat_spec is).2
  · exact (fromisoformat_spec is).2
  · exact (dateOrNone_spec is).2

theorem ageYears_held (ctx : Context) (args : List Value) : Held (ageYears ctx args) := by
  unfold ageYears
  split
  · exact Held.null
  split
  · rename_i born ref isBorn isRef
    have first := (dateOrNone_spec isBorn).2
    have second := ageDate_spec isRef
    apply Held.integer
    rw [inRange_iff]
    split <;> omega
  · exact Held.null

theorem dateAddDays_held (a b : Value) : Held (dateAddDays a b) := by
  unfold dateAddDays
  split
  · split
    · exact Held.text _
    · exact Held.null
  · exact Held.null

theorem substr_held (args : List Value) : Held (substr args) := by
  unfold substr
  repeat' split
  all_goals first | exact Held.text _ | exact Held.null

theorem text1_held (op : String → String) (a : Value) : Held (text1 op a) := by
  unfold text1
  split
  · exact Held.text _
  · exact Held.null

theorem text2_held (op : List Char → List Char → Bool) (a b : Value) : Held (text2 op a b) := by
  unfold text2
  split
  · exact Held.bool _
  · exact Held.null

theorem castStr_held (lib : Library) (a : Value) : Held (((castStr lib a).map Value.text).getD .null) := by
  cases castStr lib a with
  | none => exact Held.null
  | some s => exact Held.text s

theorem coalesce_held {args : List Value} (held : ∀ a ∈ args, Held a) : Held (coalesce args) := by
  unfold coalesce
  cases found : args.find? (! ·.isNull) with
  | none => exact Held.null
  | some a => exact held a (List.mem_of_find?_eq_some found)

theorem sqrt_total (lib : Library) {a : Value} (held : Held a) : Total (sqrt lib a) := by
  unfold sqrt
  split
  · exact Held.null
  · rename_i x is
    split
    · exact Held.null
    · rw [toFloat_eq (number_short held is)]
      exact Held.decimal _

theorem trig_total {fn : Binary64 → Binary64} {a : Value} (held : Held a) : Total (trig (fun d => .ok (fn d)) a) := by
  unfold trig
  split
  · exact Held.null
  · rename_i x is
    rw [toFloat_eq (number_short held is)]
    exact Held.decimal _

theorem bounded_total {fn : Binary64 → Binary64} {a : Value} (held : Held a) :
    Total (trig (bounded fn) a) ↔ ¬ ∃ negative, a = .decimal (.inf negative) := by
  have other {x : Num} (is : number a = some x) (apart : ∀ negative, x.double ≠ .inf negative) :
      Total (trig (bounded fn) a) := by
    unfold trig
    rw [is]
    dsimp only
    rw [toFloat_eq (number_short held is)]
    cases double : x.double with
    | inf negative => exact absurd double (apart negative)
    | finite q => exact Held.decimal _
    | nan => exact Held.decimal _
  cases held with
  | @integer n range =>
    refine iff_of_true (other rfl ?_) (by simp)
    intro negative infinite
    have finite := ofInt_finite range
    rw [show Binary64.ofInt n = .inf negative from infinite] at finite
    exact Bool.noConfusion finite
  | decimal d =>
    cases d with
    | inf negative => exact iff_of_false (not_total_raised _) (by simp)
    | finite q => exact iff_of_true (other rfl fun _ => Binary64.noConfusion) (by simp)
    | nan => exact iff_of_true (other rfl fun _ => Binary64.noConfusion) (by simp)
  | null => exact iff_of_true Held.null (by simp)
  | text s => exact iff_of_true Held.null (by simp)
  | bool value => exact iff_of_true Held.null (by simp)
  | sequence items => exact iff_of_true Held.null (by simp)

def SearchBreaks (lib : Library) (subject pattern : String) : Prop :=
  forbidden pattern = false ∧ ∃ failure, lib.search pattern subject = .error failure ∧ failure ≠ .overflow

theorem regex_total (lib : Library) (a b : Value) :
    Total (regex lib a b) ↔
      ¬ ∃ subject pattern, text a = some subject ∧ text b = some pattern ∧ SearchBreaks lib subject pattern := by
  unfold regex
  cases isA : text a with
  | none => exact iff_of_true Held.null (by simp)
  | some subject =>
    cases isB : text b with
    | none => exact iff_of_true Held.null (by simp)
    | some pattern =>
      dsimp only
      split
      · rename_i refused
        exact iff_of_true Held.null (by simp [SearchBreaks, refused])
      rename_i permitted
      cases found : lib.search pattern subject with
      | error failure =>
        show failure = .overflow ↔ _
        simp [SearchBreaks, permitted, found]
      | ok answer =>
        refine iff_of_true ?_ (by simp [SearchBreaks, found])
        cases answer with
        | none => exact Held.null
        | some truth => exact Held.bool truth

theorem distance_null (lib : Library) {a : Value} (held : Held a) (b : Value) : distance lib a b = .ok .null := by
  cases held <;> rfl

def HeldDatasets (ctx : Context) : Prop :=
  ∀ rows, ctx.datasets = some rows →
    ∀ dataset column key, ∀ row ∈ rows dataset column key, ∀ name value, row name = some value → Held value

theorem pulldata_held {ctx : Context} (cells : HeldDatasets ctx) (dataset column keyColumn key : Value) :
    Held (pulldata ctx dataset column keyColumn key) := by
  unfold pulldata
  split
  · rename_i rows _ _ _ is
    split
    · exact Held.null
    · cases cell : (rows _ _ key).head?.bind fun row => row _ with
      | none => exact Held.null
      | some value =>
        obtain ⟨row, first, is'⟩ := Option.bind_eq_some_iff.mp cell
        exact cells rows is _ _ _ row (List.mem_of_head? first) _ _ is'
  · exact Held.null

def CallBreaks (lib : Library) (fn : String) (args : List Value) : Prop :=
  match fn, args with
  | "count", [a] => 2 ^ 63 ≤ ((seq a).filter (! ·.isNull)).length
  | "sum", [a] => SumBreaks 0 (numbers a)
  | "count_selected", [a] => 2 ^ 63 ≤ (seq a).length
  | "len", [a] => ∃ s, text a = some s ∧ 2 ^ 63 ≤ s.toList.length
  | "regex", [a, b] =>
    ∃ subject pattern, text a = some subject ∧ text b = some pattern ∧ SearchBreaks lib subject pattern
  | "round", a :: others =>
    ∃ x digits, number a = some x ∧ roundDigits others = some digits ∧ RoundBreaks x digits
  | "int", [a] => ∃ d, reading a = some d ∧ ¬ Fits d
  | "sin", [a] | "cos", [a] | "tan", [a] => ∃ negative, a = .decimal (.inf negative)
  | _, _ => False

theorem len_total (a : Value) : Held (len a) ↔ ¬ ∃ s, text a = some s ∧ 2 ^ 63 ≤ s.toList.length := by
  unfold len
  cases text a with
  | none => exact iff_of_true Held.null (by simp)
  | some s => simp [length_held_iff]

theorem one_total {f : Value → Except Failure Value} {fn : String} {lib : Library} {args : List Value}
    (held : ∀ a ∈ args, Held a) (arity : 1 ≤ args.length ∧ args.length ≤ 1)
    (each : ∀ a, Held a → (Total (f a) ↔ ¬ CallBreaks lib fn [a])) :
    Total (one f args) ↔ ¬ CallBreaks lib fn args := by
  obtain ⟨a, rfl⟩ := List.length_eq_one_iff.mp (le_antisymm arity.2 arity.1)
  exact each a (held a (by simp))

theorem two_total {f : Value → Value → Except Failure Value} {fn : String} {lib : Library} {args : List Value}
    (held : ∀ a ∈ args, Held a) (arity : 2 ≤ args.length ∧ args.length ≤ 2)
    (each : ∀ a b, Held a → Held b → (Total (f a b) ↔ ¬ CallBreaks lib fn [a, b])) :
    Total (two f args) ↔ ¬ CallBreaks lib fn args := by
  obtain ⟨a, b, rfl⟩ := List.length_eq_two.mp (le_antisymm arity.2 arity.1)
  exact each a b (held a (by simp)) (held b (by simp))

theorem call_total {lib : Library} {ctx : Context} (cells : HeldDatasets ctx) {fn : String}
    {impl : List Value → Except Failure Value} {least most : ℕ} (entry : (fn, impl, least, most) ∈ table lib ctx)
    {args : List Value} (held : ∀ a ∈ args, Held a) (arity : least ≤ args.length ∧ args.length ≤ most) :
    Total (impl args) ↔ ¬ CallBreaks lib fn args := by
  unfold table at entry
  simp only [List.mem_cons, List.not_mem_nil, or_false, Prod.mk.injEq] at entry
  rcases entry with h | h | h | h | h | h | h | h | h | h | h | h | h | h | h | h | h | h | h | h | h | h |
    h | h | h | h | h | h | h | h | h | h | h | h <;>
    obtain ⟨rfl, rfl, rfl, rfl⟩ := h
  · exact one_total held arity fun a _ => length_held_iff
  · exact one_total held arity fun a heldA => sum_total heldA
  · exact one_total held arity fun a heldA => iff_of_true (extreme_held _ heldA) id
  · exact one_total held arity fun a heldA => iff_of_true (extreme_held _ heldA) id
  · exact one_total held arity fun a _ => by rw [countSelected_eq]; exact length_held_iff
  · exact iff_of_true (coalesce_held held) id
  · exact iff_of_true (Held.text _) id
  · exact iff_of_true (Held.text _) id
  · exact iff_of_true (ageYears_held ctx args) id
  · exact two_total held arity fun a b _ _ => iff_of_true (dateDiffDays_held a b) id
  · exact two_total held arity fun a b _ _ => iff_of_true (dateAddDays_held a b) id
  · exact one_total held arity fun a _ => len_total a
  · exact one_total held arity fun a _ => iff_of_true (text1_held _ a) id
  · exact one_total held arity fun a _ => iff_of_true (text1_held _ a) id
  · exact one_total held arity fun a _ => iff_of_true (text1_held _ a) id
  · exact iff_of_true (Held.text _) id
  · exact iff_of_true (substr_held args) id
  · exact two_total held arity fun a b _ _ => iff_of_true (text2_held _ a b) id
  · exact two_total held arity fun a b _ _ => iff_of_true (text2_held _ a b) id
  · exact two_total held arity fun a b _ _ => iff_of_true (text2_held _ a b) id
  · exact two_total held arity fun a b _ _ => regex_total lib a b
  · cases args with
    | nil => exact absurd arity.1 (by decide)
    | cons a others => exact round_total (held a List.mem_cons_self)
  · exact one_total held arity fun a heldA => castInt_total heldA
  · exact one_total held arity fun a heldA => iff_of_true (castDec_total heldA) id
  · exact one_total held arity fun a _ => iff_of_true (castStr_held lib a) id
  · exact two_total held arity fun a b heldA _ => iff_of_true (distance_null lib heldA b ▸ Held.null) id
  · match args, arity with
    | [a, b, c, d], _ => exact iff_of_true (pulldata_held cells a b c d) id
  · exact one_total held arity fun a heldA => iff_of_true (sqrt_total lib heldA) id
  · exact one_total held arity fun a heldA => bounded_total heldA
  · exact one_total held arity fun a heldA => bounded_total heldA
  · exact one_total held arity fun a heldA => bounded_total heldA
  · exact one_total held arity fun a heldA => iff_of_true (trig_total heldA) id
  · exact one_total held arity fun a _ => iff_of_true (Held.bool _) id
  · exact one_total held arity fun a _ => iff_of_true (Held.bool _) id

end Table

section Trees

variable (lib : Library) (resolve : Context → String → Except Failure Value) (ctx : Context)

/-- The trees whose operators and functions the engine knows, each with a number of arguments it takes, and
whose references come to form values. -/
inductive Known : Expr → Prop
  | lit {value : FormValue} : Held (Value.ofForm value) → Known (.lit value)
  | ref {path : String} {value : Value} : resolve ctx path = .ok value → Held value → Known (.ref path)
  | op {name : String} {op : Operator} {args : List Expr} : Operator.named name = some op →
      op.Takes args.length → (∀ arg ∈ args, Known arg) → Known (.op name args)
  | call {fn : String} {impl : List Value → Except Failure Value} {least most : ℕ} {args : List Expr} :
      (table lib ctx).lookup fn = some (impl, least, most) → least ≤ args.length ∧ args.length ≤ most →
      (∀ arg ∈ args, Known arg) → Known (.call fn args)

/-- The evaluations that the evaluation of a tree makes: of an argument after others that have values, and of
one branch of an `if`. -/
inductive Comes : Expr → Expr → Prop
  | operand {name : String} {op : Operator} {before after : List Expr} {arg : Expr} {values : List Value} :
      Operator.named name = some op → op ≠ .cond →
      evaluateAll (call lib) resolve ctx before = .ok values → Comes (.op name (before ++ arg :: after)) arg
  | argument {fn : String} {before after : List Expr} {arg : Expr} {values : List Value} :
      evaluateAll (call lib) resolve ctx before = .ok values → Comes (.call fn (before ++ arg :: after)) arg
  | condition {name : String} {cond : Expr} {branches : List Expr} : Operator.named name = some .cond →
      Comes (.op name (cond :: branches)) cond
  | yes {name : String} {cond yes no : Expr} : Operator.named name = some .cond →
      evaluate (call lib) resolve ctx cond = .ok (.bool true) → Comes (.op name [cond, yes, no]) yes
  | no {name : String} {cond yes no : Expr} : Operator.named name = some .cond →
      evaluate (call lib) resolve ctx cond = .ok (.bool false) → Comes (.op name [cond, yes, no]) no

def Reaches : Expr → Expr → Prop := Relation.ReflTransGen (Comes lib resolve ctx)

def BreaksAt : Expr → Prop
  | .op name args => ∃ op values, Operator.named name = some op ∧ op ≠ .cond ∧
      evaluateAll (call lib) resolve ctx args = .ok values ∧ OpBreaks op values
  | .call fn args => ∃ values, evaluateAll (call lib) resolve ctx args = .ok values ∧ CallBreaks lib fn values
  | .lit _ | .ref _ => False

def HeldAll (count : ℕ) : Except Failure (List Value) → Prop
  | .ok values => values.length = count ∧ ∀ value ∈ values, Held value
  | .error failure => failure = .overflow

variable {lib resolve ctx}

theorem evaluateAll_held {args : List Expr}
    (each : ∀ before arg after values, args = before ++ arg :: after →
      evaluateAll (call lib) resolve ctx before = .ok values → Total (evaluate (call lib) resolve ctx arg)) :
    HeldAll args.length (evaluateAll (call lib) resolve ctx args) := by
  induction args with
  | nil =>
    rw [evaluateAll]
    exact ⟨rfl, fun value member => absurd member List.not_mem_nil⟩
  | cons arg rest ih =>
    have first := each [] arg rest [] rfl (by rw [evaluateAll])
    rw [evaluateAll]
    cases outcome : evaluate (call lib) resolve ctx arg with
    | error failure =>
      rw [outcome] at first
      exact first
    | ok value =>
      have later := ih fun before arg' after values same evaluated =>
        each (arg :: before) arg' after (value :: values) (by rw [same, List.cons_append])
          (by rw [evaluateAll, outcome, evaluated]; rfl)
      rw [outcome] at first
      cases others : evaluateAll (call lib) resolve ctx rest with
      | error failure =>
        rw [others] at later
        exact later
      | ok values =>
        rw [others] at later
        refine ⟨by simp [later.1], fun item member => ?_⟩
        rcases List.mem_cons.mp member with rfl | within
        · exact first
        · exact later.2 item within

theorem applied_total {args : List Expr} {apply : List Value → Except Failure Value} {breaks : List Value → Prop}
    (held : HeldAll args.length (evaluateAll (call lib) resolve ctx args))
    (settled : ∀ values : List Value, values.length = args.length → (∀ value ∈ values, Held value) →
      (Total (apply values) ↔ ¬ breaks values)) :
    Total (evaluateAll (call lib) resolve ctx args >>= apply) ↔
      ¬ ∃ values, evaluateAll (call lib) resolve ctx args = .ok values ∧ breaks values := by
  cases outcome : evaluateAll (call lib) resolve ctx args with
  | error failure =>
    rw [outcome] at held
    exact iff_of_true held (by simp)
  | ok values =>
    rw [outcome] at held
    refine (settled values held.1 held.2).trans ?_
    simp

theorem if_total {name : String} (named : Operator.named name = some .cond) {cond yes no : Expr}
    (parts : ∀ arg, Comes lib resolve ctx (.op name [cond, yes, no]) arg →
      Total (evaluate (call lib) resolve ctx arg)) :
    Total (evaluateIf (call lib) resolve ctx [cond, yes, no]) := by
  have first := parts cond (Comes.condition named)
  rw [evaluateIf]
  cases outcome : evaluate (call lib) resolve ctx cond with
  | error failure =>
    rw [outcome] at first
    exact first
  | ok value =>
    cases value with
    | bool truth =>
      cases truth with
      | true => exact parts yes (Comes.yes named outcome)
      | false => exact parts no (Comes.no named outcome)
    | _ => exact Held.null

theorem step_total (cells : HeldDatasets ctx) {e : Expr} (known : Known lib resolve ctx e)
    (parts : ∀ arg, Comes lib resolve ctx e arg → Total (evaluate (call lib) resolve ctx arg)) :
    Total (evaluate (call lib) resolve ctx e) ↔ ¬ BreaksAt lib resolve ctx e := by
  cases known with
  | lit held =>
    rw [evaluate]
    exact iff_of_true held id
  | ref resolved held =>
    rw [evaluate, resolved]
    exact iff_of_true held id
  | @op name op args named takes known =>
    by_cases other : op = .cond
    · subst other
      obtain ⟨cond, yes, no, rfl⟩ := List.length_eq_three.mp takes
      rw [reference_if named]
      refine iff_of_true (if_total named parts) ?_
      rintro ⟨op, values, named', other, -⟩
      exact other (Option.some.inj (named'.symm.trans named))
    · have held : HeldAll args.length (evaluateAll (call lib) resolve ctx args) := by
        apply evaluateAll_held
        rintro before arg after values rfl evaluated
        exact parts arg (Comes.operand named other evaluated)
      have settled := applied_total held fun values length each =>
        operate_total other (by rw [length]; exact takes) each
      rw [reference_op named other takes, settled]
      refine not_congr ⟨fun found => ?_, fun found => ?_⟩
      · obtain ⟨values, evaluated, breaks⟩ := found
        exact ⟨op, values, named, other, evaluated, breaks⟩
      · obtain ⟨op', values, named', -, evaluated, breaks⟩ := found
        obtain rfl : op' = op := Option.some.inj (named'.symm.trans named)
        exact ⟨values, evaluated, breaks⟩
  | @call fn impl least most args entry arity known =>
    have held : HeldAll args.length (evaluateAll (call lib) resolve ctx args) := by
      apply evaluateAll_held
      rintro before arg after values rfl evaluated
      exact parts arg (Comes.argument evaluated)
    have applied : evaluate (call lib) resolve ctx (.call fn args) =
        evaluateAll (call lib) resolve ctx args >>= fun values =>
          if least ≤ values.length ∧ values.length ≤ most then impl values
          else .error (.compile ("function " ++ fn ++ " expects " ++ toString least ++ ".." ++ toString most ++
            " args, got " ++ toString values.length)) := by
      rw [evaluate]
      unfold call
      rw [entry]
      rfl
    rw [applied]
    refine applied_total held fun values length each => ?_
    rw [length, if_pos arity]
    obtain ⟨before, after, same, -⟩ := List.lookup_eq_some_iff.mp entry
    have listed : (fn, impl, least, most) ∈ table lib ctx := by
      rw [same]
      exact List.mem_append_right _ List.mem_cons_self
    exact call_total cells listed each (by rw [length]; exact arity)

def parts : Expr → List Expr
  | .op _ args | .call _ args => args
  | .lit _ | .ref _ => []

theorem comes_parts {e arg : Expr} (comes : Comes lib resolve ctx e arg) : arg ∈ parts e := by
  cases comes <;> simp [parts]

theorem Known.parts {e : Expr} (known : Known lib resolve ctx e) : ∀ arg ∈ parts e, Known lib resolve ctx arg := by
  cases known with
  | lit held => simp [Reference.parts]
  | ref resolved held => simp [Reference.parts]
  | op named takes known => exact known
  | call entry arity known => exact known

theorem Known.reaches {e e' : Expr} (known : Known lib resolve ctx e) (reaches : Reaches lib resolve ctx e e') :
    Known lib resolve ctx e' := by
  induction reaches with
  | refl => exact known
  | tail _ comes ih => exact ih.parts _ (comes_parts comes)

theorem total_of_unbroken (cells : HeldDatasets ctx) {e : Expr} (known : Known lib resolve ctx e)
    (unbroken : ∀ e', Reaches lib resolve ctx e e' → ¬ BreaksAt lib resolve ctx e') :
    Total (evaluate (call lib) resolve ctx e) := by
  have whole := known
  induction known with
  | lit held => exact (step_total cells whole nofun).mpr id
  | ref resolved held => exact (step_total cells whole nofun).mpr id
  | op named takes known ih =>
    refine (step_total cells whole fun arg comes => ?_).mpr (unbroken _ Relation.ReflTransGen.refl)
    exact ih arg (comes_parts comes) (fun e' below => unbroken e' (Relation.ReflTransGen.head comes below))
      (known arg (comes_parts comes))
  | call entry arity known ih =>
    refine (step_total cells whole fun arg comes => ?_).mpr (unbroken _ Relation.ReflTransGen.refl)
    exact ih arg (comes_parts comes) (fun e' below => unbroken e' (Relation.ReflTransGen.head comes below))
      (known arg (comes_parts comes))

/-- Every evaluation within that of a tree has a form value or overflows, exactly where none of them is of an
operator or a function that breaks on its arguments. -/
theorem evaluations_total_iff (cells : HeldDatasets ctx) {e : Expr} (known : Known lib resolve ctx e) :
    (∀ e', Reaches lib resolve ctx e e' → Total (evaluate (call lib) resolve ctx e')) ↔
      ∀ e', Reaches lib resolve ctx e e' → ¬ BreaksAt lib resolve ctx e' := by
  constructor
  · intro total e' reaches
    refine (step_total cells (known.reaches reaches) fun arg comes => ?_).mp (total e' reaches)
    exact total arg (Relation.ReflTransGen.tail reaches comes)
  · intro unbroken e' reaches
    apply total_of_unbroken cells (known.reaches reaches)
    intro e'' below
    exact unbroken e'' (Relation.ReflTransGen.trans reaches below)

/-- `int` of a text. -/
def intTree (text : String) : Expr := .call "int" [.lit (.text text)]

theorem intTree_known (text : String) : Known noLibrary noReferences bare (intTree text) := by
  refine @Known.call _ _ _ _ (one castInt) 1 1 _ rfl (by simp) ?_
  intro arg member
  obtain rfl := List.mem_singleton.mp member
  exact Known.lit (Held.text text)

theorem bare_cells : HeldDatasets bare := nofun

theorem intTree_unbroken {e : Expr} (reaches : Reaches noLibrary noReferences bare (intTree "7") e) :
    ¬ BreaksAt noLibrary noReferences bare e := by
  have literal {e : Expr} (below : Reaches noLibrary noReferences bare (.lit (.text "7")) e) :
      e = .lit (.text "7") := by
    rcases Relation.ReflTransGen.cases_head below with same | ⟨arg, comes, -⟩
    · exact same.symm
    · cases comes
  rcases Relation.ReflTransGen.cases_head reaches with rfl | ⟨arg, comes, below⟩
  · rintro ⟨values, evaluated, breaks⟩
    simp only [evaluateAll, evaluate] at evaluated
    obtain rfl : [Value.text "7"] = values := Except.ok.inj evaluated
    obtain ⟨d, is, unfit⟩ := breaks
    have seven : float "7" = some (.finite 7) := by decide +kernel
    obtain rfl : Binary64.finite 7 = d := Option.some.inj (seven.symm.trans is)
    exact unfit (show inRange (Binary64.truncated 7) = true by decide +kernel)
  · obtain rfl := List.mem_singleton.mp (comes_parts comes)
    rw [literal below]
    exact id

theorem seven_total : Total (evaluate (call noLibrary) noReferences bare (intTree "7")) :=
  (evaluations_total_iff bare_cells (intTree_known "7")).mpr (fun _ => intTree_unbroken) (intTree "7") .refl

/-- `int("inf")` raises the language's own `OverflowError`. -/
theorem int_of_infinity :
    ¬ ∀ e, Known noLibrary noReferences bare e → Total (evaluate (call noLibrary) noReferences bare e) := by
  intro always
  have total := always (intTree "inf") (intTree_known "inf")
  have raised : evaluate (call noLibrary) noReferences bare (intTree "inf") = .error (.raised "OverflowError") := by
    have infinite : float "inf" = some (.inf false) := by decide +kernel
    simp only [intTree, evaluate, evaluateAll]
    show castInt (.text "inf") = _
    simp only [castInt, asNumber, infinite]
    rfl
  rw [raised] at total
  exact not_total_raised _ total

end Trees

end Reference

end DataCollectionLab.Form
