import DataCollectionLab.Form.Value

/-!
The device's engine: the operators and the evaluator of `Expression.kt`. An integer is a `Long`, and a
number that is compared or divided is a `Double` first.
-/

namespace DataCollectionLab.Form

open Lib

namespace Evaluator

def asDouble : Value → Option Binary64
  | .integer n => some (.ofInt n)
  | .decimal d => some d
  | _ => none

/-- `addExact`: the sign of the sum differs from both operands' signs exactly on overflow. -/
def addExact (a b : Int64) : Except Failure Int64 :=
  let r := a + b
  if (a ^^^ r) &&& (b ^^^ r) < 0 then .error .overflow else .ok r

def subtractExact (a b : Int64) : Except Failure Int64 :=
  let r := a - b
  if (a ^^^ b) &&& (a ^^^ r) < 0 then .error .overflow else .ok r

def multiplyExact (a b : Int64) : Except Failure Int64 :=
  if a = 0 ∨ b = 0 then .ok 0
  else if a = -1 then if b = Int64.minValue then .error .overflow else .ok (-b)
  else if b = -1 then if a = Int64.minValue then .error .overflow else .ok (-a)
  else
    let r := a * b
    if r / b ≠ a then .error .overflow else .ok r

/-- A `Long` of the engine. -/
def long (n : ℤ) : Int64 := Int64.ofInt n

/-- `arithmetic`, for an operator on `Long`s and on doubles. -/
def arithmetic (longs : Int64 → Int64 → Except Failure Int64) (doubles : Binary64 → Binary64 → Binary64)
    (a b : Value) : Except Failure Value :=
  match a, b with
  | .integer x, .integer y => do return .integer (← longs (long x) (long y)).toInt
  | a, b =>
    match asDouble a, asDouble b with
    | some x, some y => .ok (.decimal (doubles x y))
    | _, _ => .ok .null

/-- `arithmetic` for `mod`: the remainder takes the sign of the dividend. -/
def mod (a b : Value) : Value :=
  match a, b with
  | .integer x, .integer y => if y = 0 then .null else .integer (x.tmod y)
  | a, b =>
    match asDouble a, asDouble b with
    | some x, some y => if y.eq (.finite 0) then .null else .decimal (x.fmod y)
    | _, _ => .null

def divide (a b : Value) : Value :=
  match asDouble a, asDouble b with
  | some x, some y => if y.eq (.finite 0) then .null else .decimal (x.div y)
  | _, _ => .null

/-- `toLong` of a double: cut to the range, and zero for no number. -/
def toLong : Binary64 → ℤ
  | .finite a => max (-2 ^ 63) (min (2 ^ 63 - 1) (Binary64.truncated a))
  | .inf negative => if negative then -2 ^ 63 else 2 ^ 63 - 1
  | .nan => 0

def integerDivide (a b : Value) : Value :=
  match asDouble a, asDouble b with
  | some x, some y => if y.eq (.finite 0) then .null else .integer (toLong (x.div y).floor)
  | _, _ => .null

def negate : Value → Value
  | .integer n => .integer (-long n).toInt
  | .decimal d => .decimal d.neg
  | _ => .null

def sameField : Option Binary64 → Option Binary64 → Bool
  | some x, some y => x = y
  | none, none => true
  | _, _ => false

mutual

/-- `==` of the data classes. -/
def same : Value → Value → Bool
  | .null, .null => true
  | .text s, .text t => s = t
  | .integer x, .integer y => x = y
  | .decimal x, .decimal y => x = y
  | .bool x, .bool y => x = y
  | .dateValue s, .dateValue t => s = t
  | .sequence xs, .sequence ys => sameAll xs ys
  | .geoPoint lat lon alt accuracy, .geoPoint lat' lon' alt' accuracy' =>
    lat = lat' && lon = lon' && sameField alt alt' && sameField accuracy accuracy'
  | .mediaRef id filename hash size, .mediaRef id' filename' hash' size' =>
    id = id' && filename = filename' && hash = hash' && size = size'
  | _, _ => false

def sameAll : List Value → List Value → Bool
  | [], [] => true
  | x :: xs, y :: ys => same x y && sameAll xs ys
  | _, _ => false

end

/-- `equalValues`: numbers by their doubles. -/
def equalValues (a b : Value) : Bool :=
  match asDouble a, asDouble b with
  | some x, some y => x.eq y
  | none, none => same a b
  | _, _ => false

def utf16Units (c : Char) : List Nat :=
  if c.toNat < 0x10000 then [c.toNat]
  else [0xD800 + (c.toNat - 0x10000) / 0x400, 0xDC00 + (c.toNat - 0x10000) % 0x400]

def utf16 (text : List Char) : List Nat := text.flatMap utf16Units

/-- `compare` for an ordering. -/
def compare (texts : List Nat → List Nat → Bool) (doubles : Binary64 → Binary64 → Bool) (a b : Value) : Value :=
  match a, b with
  | .text s, .text t => .bool (texts (utf16 s.toList) (utf16 t.toList))
  | a, b =>
    match asDouble a, asDouble b with
    | some x, some y => .bool (doubles x y)
    | _, _ => .null

/-- `compare` for `eq` and `ne`. -/
def compareEqual (negated : Bool) (a b : Value) : Value :=
  if a.isNull || b.isNull then .null else .bool (negated ^^ equalValues a b)

def selected (haystack needle : Value) : Value :=
  if haystack.isNull || needle.isNull then .null
  else
    let items := match haystack with
      | .sequence items => items
      | value => [value]
    .bool (items.any fun item => equalValues item needle)

def asBool : Value → Option Bool
  | .bool value => some value
  | _ => none

def and (args : List Value) : Value :=
  let values := args.map asBool
  if values.any (· = some false) then .bool false
  else if values.any (· = none) then .null
  else .bool true

def or (args : List Value) : Value :=
  let values := args.map asBool
  if values.any (· = some true) then .bool true
  else if values.any (· = none) then .null
  else .bool false

def not : Value → Value
  | .bool value => .bool !value
  | _ => .null

/-- The `when` of `evalOp`, over the arguments' values. -/
def operate (op : Operator) (args : List Value) : Except Failure Value :=
  match op, args with
  | .and, args => .ok (and args)
  | .or, args => .ok (or args)
  | .not, a :: _ => .ok (not a)
  | .neg, a :: _ => .ok (negate a)
  | .add, a :: b :: _ => arithmetic addExact Binary64.add a b
  | .sub, a :: b :: _ => arithmetic subtractExact Binary64.sub a b
  | .mul, a :: b :: _ => arithmetic multiplyExact Binary64.mul a b
  | .mod, a :: b :: _ => .ok (mod a b)
  | .div, a :: b :: _ => .ok (divide a b)
  | .idiv, a :: b :: _ => .ok (integerDivide a b)
  | .eq, a :: b :: _ => .ok (compareEqual false a b)
  | .ne, a :: b :: _ => .ok (compareEqual true a b)
  | .lt, a :: b :: _ => .ok (compare lexLt Binary64.lt a b)
  | .lte, a :: b :: _ => .ok (compare (fun s t => !lexLt t s) Binary64.le a b)
  | .gt, a :: b :: _ => .ok (compare (fun s t => lexLt t s) (fun x y => y.lt x) a b)
  | .gte, a :: b :: _ => .ok (compare (fun s t => !lexLt s t) (fun x y => y.le x) a b)
  | .selected, a :: b :: _ => .ok (selected a b)
  | .isIn, a :: b :: _ => .ok (selected b a)
  | _, _ => .error (.raised "IndexOutOfBoundsException")

section Longs

theorem toInt_long {n : ℤ} (range : inRange n = true) : (long n).toInt = n := by
  obtain ⟨low, high⟩ := inRange_iff.mp range
  exact Int64.toInt_ofInt_of_le low high

theorem neg_iff_msb (a : Int64) : a < 0 ↔ a.toBitVec.msb = true := by
  rw [Int64.lt_iff_toInt_lt, BitVec.msb_eq_toInt, decide_eq_true_eq]
  rfl

theorem guarded_eq {r : Int64} {n : ℤ} {refused : Prop} [Decidable refused]
    (wraps : r.toInt = n.bmod (2 ^ 64)) (exactly : refused ↔ inRange n = false) :
    (if refused then (.error .overflow : Except Failure Int64) else .ok r).map Int64.toInt =
      if inRange n then .ok n else .error .overflow := by
  cases range : inRange n with
  | false =>
    rw [if_pos (exactly.mpr range), if_neg Bool.false_ne_true]
    rfl
  | true =>
    obtain ⟨low, high⟩ := inRange_iff.mp range
    have allowed : ¬ refused := fun refuses => Bool.false_ne_true ((exactly.mp refuses).symm.trans range)
    rw [if_neg allowed, if_pos rfl]
    show Except.ok r.toInt = Except.ok n
    rw [wraps, Int.bmod_eq_of_le] <;> omega

theorem outside_iff (n : ℤ) :
    (decide (n ≥ 2 ^ (64 - 1)) || decide (n < -2 ^ (64 - 1))) = true ↔ inRange n = false := by
  rw [← Bool.not_eq_true, inRange_iff]
  simp only [Bool.or_eq_true, decide_eq_true_eq]
  omega

theorem addExact_eq (a b : Int64) :
    (addExact a b).map Int64.toInt =
      if inRange (a.toInt + b.toInt) then .ok (a.toInt + b.toInt) else .error .overflow := by
  refine guarded_eq (Int64.toInt_add a b) ?_
  have signs : ((a.toBitVec.msb ^^ (a.toBitVec + b.toBitVec).msb) &&
      (b.toBitVec.msb ^^ (a.toBitVec + b.toBitVec).msb)) = a.toBitVec.saddOverflow b.toBitVec := by
    rw [BitVec.saddOverflow_eq]
    cases a.toBitVec.msb <;> cases b.toBitVec.msb <;> cases (a.toBitVec + b.toBitVec).msb <;> rfl
  rw [neg_iff_msb, Int64.toBitVec_and, Int64.toBitVec_xor, Int64.toBitVec_xor, Int64.toBitVec_add,
    BitVec.msb_and, BitVec.msb_xor, BitVec.msb_xor, signs, BitVec.saddOverflow]
  exact outside_iff _

theorem subtractExact_eq (a b : Int64) :
    (subtractExact a b).map Int64.toInt =
      if inRange (a.toInt - b.toInt) then .ok (a.toInt - b.toInt) else .error .overflow := by
  refine guarded_eq (Int64.toInt_sub a b) ?_
  have signs : ((a.toBitVec.msb ^^ b.toBitVec.msb) &&
      (a.toBitVec.msb ^^ (a.toBitVec - b.toBitVec).msb)) = a.toBitVec.ssubOverflow b.toBitVec := by
    rw [BitVec.ssubOverflow_eq]
    cases a.toBitVec.msb <;> cases b.toBitVec.msb <;> cases (a.toBitVec - b.toBitVec).msb <;> rfl
  rw [neg_iff_msb, Int64.toBitVec_and, Int64.toBitVec_xor, Int64.toBitVec_xor, Int64.toBitVec_sub,
    BitVec.msb_and, BitVec.msb_xor, BitVec.msb_xor, signs, BitVec.ssubOverflow]
  exact outside_iff _

theorem negated_eq (c : Int64) :
    (if c = Int64.minValue then (.error .overflow : Except Failure Int64) else .ok (-c)).map Int64.toInt =
      if inRange (-c.toInt) then .ok (-c.toInt) else .error .overflow := by
  refine guarded_eq (Int64.toInt_neg c) ?_
  have low := c.le_toInt
  have high := c.toInt_lt
  rw [← Int64.toInt_inj, ← Bool.not_eq_true, inRange_iff, Int64.toInt_minValue]
  omega

theorem product_refused_iff {a b : Int64} (zero : b ≠ 0) (minus : b ≠ -1) :
    a * b / b ≠ a ↔ inRange (a.toInt * b.toInt) = false := by
  have divisor : b.toInt ≠ 0 := fun same => zero (Int64.toInt_inj.mp same)
  have apart : b.toInt ≠ -1 := fun same => minus (Int64.toInt_inj.mp same)
  have product := Int64.toInt_mul a b
  have low := (a * b).le_toInt
  have high := (a * b).toInt_lt
  have quotient : (a * b / b).toInt = (a * b).toInt.tdiv b.toInt := by
    rw [Int64.toInt_div]
    have size := Int.natAbs_tdiv (a * b).toInt b.toInt
    have range : -2 ^ 63 ≤ (a * b).toInt.tdiv b.toInt ∧ (a * b).toInt.tdiv b.toInt < 2 ^ 63 := by
      by_cases one : b.toInt = 1
      · rw [one, Int.tdiv_one]
        exact ⟨low, high⟩
      · have halved : (a * b).toInt.natAbs.div b.toInt.natAbs ≤ (a * b).toInt.natAbs / 2 :=
          Nat.div_le_div_left (by omega) (by norm_num)
        omega
    rw [Int.bmod_eq_of_le] <;> omega
  rw [← Bool.not_eq_true, not_iff_not, ← Int64.toInt_inj, quotient, inRange_iff]
  constructor
  · intro same
    have whole := Int.tmod_add_mul_tdiv (a * b).toInt b.toInt
    rw [same] at whole
    -- What is left over is a multiple of the modulus, and smaller than it.
    obtain ⟨times, multiple⟩ : ((2 ^ 64 : ℕ) : ℤ) ∣ (a * b).toInt - a.toInt * b.toInt := by
      rw [product]
      exact Int.dvd_bmod_sub_self
    have less : ((a * b).toInt.tmod b.toInt).natAbs < b.toInt.natAbs := by
      rw [Int.natAbs_tmod]
      exact Nat.mod_lt _ (by omega)
    have lowB := b.le_toInt
    have highB := b.toInt_lt
    rw [mul_comm b.toInt a.toInt] at whole
    have none : times = 0 := by omega
    have exact : a.toInt * b.toInt = (a * b).toInt := by
      rw [none] at multiple
      omega
    rw [exact]
    exact ⟨low, high⟩
  · intro range
    have exact : (a * b).toInt = a.toInt * b.toInt := by
      rw [product, Int.bmod_eq_of_le] <;> omega
    rw [exact, Int.mul_tdiv_cancel _ divisor]

theorem multiplyExact_eq (a b : Int64) :
    (multiplyExact a b).map Int64.toInt =
      if inRange (a.toInt * b.toInt) then .ok (a.toInt * b.toInt) else .error .overflow := by
  unfold multiplyExact
  by_cases zero : a = 0 ∨ b = 0
  · have nothing : a.toInt * b.toInt = 0 := by
      rcases zero with rfl | rfl <;> simp
    rw [if_pos zero, nothing]
    rfl
  · rw [if_neg zero]
    by_cases minusA : a = -1
    · subst minusA
      have flipped : (-1 : Int64).toInt * b.toInt = -b.toInt := by
        show -1 * b.toInt = -b.toInt
        omega
      rw [if_pos rfl, negated_eq, flipped]
    · rw [if_neg minusA]
      by_cases minusB : b = -1
      · subst minusB
        have flipped : a.toInt * (-1 : Int64).toInt = -a.toInt := by
          show a.toInt * -1 = -a.toInt
          omega
        rw [if_pos rfl, negated_eq, flipped]
      · rw [if_neg minusB]
        exact guarded_eq (Int64.toInt_mul a b) (product_refused_iff (fun same => zero (Or.inr same)) minusB)

end Longs

section Evaluate

variable (functions : Context → String → List Value → Except Failure Value)
  (resolve : Context → String → Except Failure Value) (ctx : Context)

mutual

/-- `evaluate`, over what a reference and a call come to. -/
def evaluate : Expr → Except Failure Value
  | .lit value => .ok (Value.ofForm value)
  | .ref path => resolve ctx path
  | .call fn args => do functions ctx fn (← evaluateAll args)
  | .op name args =>
    if name = "if" then evaluateIf args
    else do
      let values ← evaluateAll args
      match Operator.named name with
      | none => .error (.compile ("unknown operator: " ++ name))
      | some op => operate op values

def evaluateAll : List Expr → Except Failure (List Value)
  | [] => .ok []
  | arg :: rest => do
    let value ← evaluate arg
    let others ← evaluateAll rest
    return value :: others

/-- `if` is lazy in both branches. -/
def evaluateIf : List Expr → Except Failure Value
  | [] => .error (.raised "IndexOutOfBoundsException")
  | [cond] => do
    match asBool (← evaluate cond) with
    | none => return .null
    | some _ => .error (.raised "IndexOutOfBoundsException")
  | [cond, yes] => do
    match asBool (← evaluate cond) with
    | none => return .null
    | some true => evaluate yes
    | some false => .error (.raised "IndexOutOfBoundsException")
  | cond :: yes :: no :: _ => do
    match asBool (← evaluate cond) with
    | none => return .null
    | some true => evaluate yes
    | some false => evaluate no

end

end Evaluate

end Evaluator

end DataCollectionLab.Form
