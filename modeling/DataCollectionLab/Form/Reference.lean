import DataCollectionLab.Form.Value

/-!
The reference engine: the operators and the evaluator of `expression.py`. Its integers have no bound of
their own; arithmetic checks its results against 64 bits.
-/

namespace DataCollectionLab.Form

open Lib

def cutAt (mark : List Char) : List Char → Option (List Char × List Char)
  | [] => none
  | c :: rest =>
    if mark.isPrefixOf (c :: rest) then some ([], (c :: rest).drop mark.length)
    else (cutAt mark rest).map fun cut => (c :: cut.1, cut.2)

inductive Num where
  | int (value : ℤ)
  | float (value : Binary64)
  deriving DecidableEq

namespace Num

def exact : Num → Binary64
  | int n => .finite n
  | float d => d

def double : Num → Binary64
  | int n => .ofInt n
  | float d => d

end Num

namespace Reference

/-- `float(n)`. -/
def toFloat : Num → Except Failure Binary64
  | .float d => .ok d
  | .int n =>
    match Binary64.ofInt n with
    | .inf _ => .error (.raised "OverflowError")
    | d => .ok d

def number : Value → Option Num
  | .integer n => some (.int n)
  | .decimal d => some (.float d)
  | _ => none

/-- The range check of `_arith`. -/
def checked (n : ℤ) : Except Failure Value := if inRange n then .ok (.integer n) else .error .overflow

def arith (ints : ℤ → ℤ → ℤ) (floats : Binary64 → Binary64 → Binary64) (a b : Value) : Except Failure Value :=
  match number a, number b with
  | some (.int x), some (.int y) => checked (ints x y)
  | some x, some y => do
    let x ← toFloat x
    let y ← toFloat y
    return .decimal (floats x y)
  | _, _ => .ok .null

def ordered (numbers : Binary64 → Binary64 → Bool) (texts : List Nat → List Nat → Bool) (a b : Value) : Value :=
  match number a, number b with
  | some x, some y => .bool (numbers x.exact y.exact)
  | _, _ =>
    match a, b with
    | .text s, .text t => .bool (texts (s.toList.map Char.toNat) (t.toList.map Char.toNat))
    | _, _ => .null

/-- A number as `==` takes it: a boolean is one too. -/
def numeric : Value → Option Binary64
  | .integer n => some (.finite n)
  | .decimal d => some d
  | .bool value => some (.finite (if value then 1 else 0))
  | _ => none

def sameNumber : Option Binary64 → Option Binary64 → Bool
  | some x, some y => x.eq y
  | none, none => true
  | _, _ => false

mutual

/-- `==`. -/
def same : Value → Value → Bool
  | .null, .null => true
  | .text s, .text t => s = t
  | .dateValue s, .dateValue t => s = t
  | .sequence xs, .sequence ys => sameAll xs ys
  | .geoPoint lat lon alt accuracy, .geoPoint lat' lon' alt' accuracy' =>
    lat.eq lat' && lon.eq lon' && sameNumber alt alt' && sameNumber accuracy accuracy'
  | .mediaRef id filename hash size, .mediaRef id' filename' hash' size' =>
    id = id' && filename = filename' && hash = hash' && size = size'
  | a, b =>
    match numeric a, numeric b with
    | some x, some y => x.eq y
    | _, _ => false

def sameAll : List Value → List Value → Bool
  | [], [] => true
  | x :: xs, y :: ys => same x y && sameAll xs ys
  | _, _ => false

end

/-- `type(a) is type(b)`, for two values that are not both numbers. -/
def sameType : Value → Value → Bool
  | .null, .null | .text _, .text _ | .bool _, .bool _ | .dateValue _, .dateValue _
  | .sequence _, .sequence _ => true
  | .geoPoint .., .geoPoint .. | .mediaRef .., .mediaRef .. | .geoPoint .., .mediaRef ..
  | .mediaRef .., .geoPoint .. => true
  | _, _ => false

/-- `_equal`; `none` is null. -/
def equal (a b : Value) : Option Bool :=
  if a.isNull || b.isNull then none
  else
    match number a, number b with
    | some x, some y => some (x.exact.eq y.exact)
    | _, _ => some (sameType a b && same a b)

def seq : Value → List Value
  | .null => []
  | .sequence items => items
  | value => [value]

/-- Membership by the rule of `eq`. -/
def contained (haystack needle : Value) : Value :=
  if haystack.isNull || needle.isNull then .null
  else .bool ((seq haystack).any fun item => equal item needle = some true)

/-- `float % float`: the remainder takes the sign of the divisor. -/
def floatRem (x y : Binary64) : Binary64 :=
  let rest := Binary64.fmod x y
  if rest ≠ .finite 0 ∧ Binary64.lt y (.finite 0) ≠ Binary64.lt rest (.finite 0) then rest.add y else rest

/-- `float // float`. -/
def floatFloorDiv (x y : Binary64) : Binary64 :=
  let rest := Binary64.fmod x y
  let quotient := (x.sub rest).div y
  let quotient :=
    if rest ≠ .finite 0 ∧ Binary64.lt y (.finite 0) ≠ Binary64.lt rest (.finite 0) then
      quotient.sub (.finite 1)
    else quotient
  if quotient = .finite 0 then .finite 0
  else
    let below := quotient.floor
    if Binary64.lt (.finite (1 / 2)) (quotient.sub below) then below.add (.finite 1) else below

/-- `int(x)` of a float. -/
def intOfFloat : Binary64 → Except Failure ℤ
  | .finite a => .ok (Binary64.truncated a)
  | .inf _ => .error (.raised "OverflowError")
  | .nan => .error (.raised "ValueError")

/-- `x / y` of two integers: the exact quotient, rounded once. -/
def trueDiv (x y : ℤ) : Except Failure Binary64 :=
  match Binary64.round (x / y : ℚ) with
  | .inf _ => .error (.raised "OverflowError")
  | d => .ok d

def isZero (x : Num) : Bool := x.exact.eq (.finite 0)

def mod (a b : Value) : Except Failure Value :=
  match number a, number b with
  | some x, some y =>
    if isZero y then .ok .null
    else
      match x, y with
      | .int x, .int y => .ok (.integer (x.fmod y))
      | x, y => do return .decimal (floatRem (← toFloat x) (← toFloat y))
  | _, _ => .ok .null

/-- The branch of `div`. -/
def div (a b : Value) : Except Failure Value :=
  match number a, number b with
  | some x, some y =>
    if isZero y then .ok .null
    else
      match x, y with
      | .int x, .int y => do return .decimal (← trueDiv x y)
      | x, y => do return .decimal ((← toFloat x).div (← toFloat y))
  | _, _ => .ok .null

/-- The branch of `idiv`. -/
def idiv (a b : Value) : Except Failure Value :=
  match number a, number b with
  | some x, some y =>
    if isZero y then .ok .null
    else
      match x, y with
      | .int x, .int y => .ok (.integer (x.fdiv y))
      | x, y => do return .integer (← intOfFloat (floatFloorDiv (← toFloat x) (← toFloat y)))
  | _, _ => .ok .null

/-- The branch of `neg`: no range check. -/
def neg (a : Value) : Value :=
  match number a with
  | some (.int x) => .integer (-x)
  | some (.float d) => .decimal d.neg
  | none => .null

def boolean : Value → Option Bool
  | .bool value => some value
  | _ => none

def and (args : List Value) : Value :=
  if args.any fun value => boolean value = some false then .bool false
  else if args.any fun value => boolean value = none then .null
  else .bool true

def or (args : List Value) : Value :=
  if args.any fun value => boolean value = some true then .bool true
  else if args.any fun value => boolean value = none then .null
  else .bool false

def not : Value → Value
  | .bool value => .bool !value
  | _ => .null

def ofTruth : Option Bool → Value
  | some value => .bool value
  | none => .null

/-- `_BINARY` and the other operators of two operands. -/
def binary (op : Operator) (a b : Value) : Except Failure Value :=
  match op with
  | .add => arith (· + ·) Binary64.add a b
  | .sub => arith (· - ·) Binary64.sub a b
  | .mul => arith (· * ·) Binary64.mul a b
  | .div => div a b
  | .idiv => idiv a b
  | .mod => mod a b
  | .eq => .ok (ofTruth (equal a b))
  | .ne => .ok (ofTruth ((equal a b).map (!·)))
  | .lt => .ok (ordered Binary64.lt lexLt a b)
  | .lte => .ok (ordered Binary64.le (fun s t => !lexLt t s) a b)
  | .gt => .ok (ordered (fun x y => y.lt x) (fun s t => lexLt t s) a b)
  | .gte => .ok (ordered (fun x y => y.le x) (fun s t => !lexLt s t) a b)
  | .selected => .ok (contained a b)
  | .isIn => .ok (contained b a)
  | .cond | .and | .or | .not | .neg => .error (.compile "not an operator of two operands")

def coerceBoolean (nullIs : Bool) : Value → Except Failure Bool
  | .null => .ok nullIs
  | .bool value => .ok value
  | _ => .error .boundary

section Evaluate

variable (functions : Context → String → Except Failure (List Value → Except Failure Value))
  (resolve : Context → String → Except Failure Value) (ctx : Context)

mutual

/-- `evaluate`, over what a reference and a call come to. A function is looked up before its arguments are
evaluated. -/
def evaluate : Expr → Except Failure Value
  | .lit value => .ok (Value.ofForm value)
  | .ref path => resolve ctx path
  | .call fn args => do
    let impl ← functions ctx fn
    impl (← evaluateAll args)
  | .op name args =>
    match Operator.named name with
    | none => .error (.compile ("unknown operator: " ++ name))
    | some .cond => evaluateIf args
    | some .and => do return and (← evaluateAll args)
    | some .or => do return or (← evaluateAll args)
    | some .not => do return not (← evaluateFirst args)
    | some .neg => do return neg (← evaluateFirst args)
    | some op => do
      let (a, b) ← evaluatePair args
      binary op a b

def evaluateAll : List Expr → Except Failure (List Value)
  | [] => .ok []
  | arg :: rest => do
    let value ← evaluate arg
    let others ← evaluateAll rest
    return value :: others

def evaluateFirst : List Expr → Except Failure Value
  | [] => .error (.raised "IndexError")
  | arg :: _ => evaluate arg

def evaluatePair : List Expr → Except Failure (Value × Value)
  | [] => .error (.raised "IndexError")
  | [arg] => do
    let _ ← evaluate arg
    .error (.raised "IndexError")
  | a :: b :: _ => do
    let x ← evaluate a
    let y ← evaluate b
    return (x, y)

/-- `if` evaluates one branch, and neither where the condition is no boolean. -/
def evaluateIf : List Expr → Except Failure Value
  | [] => .error (.raised "IndexError")
  | [cond] => do
    match boolean (← evaluate cond) with
    | none => return .null
    | some _ => .error (.raised "IndexError")
  | [cond, yes] => do
    match boolean (← evaluate cond) with
    | none => return .null
    | some true => evaluate yes
    | some false => .error (.raised "IndexError")
  | cond :: yes :: no :: _ => do
    match boolean (← evaluate cond) with
    | none => return .null
    | some true => evaluate yes
    | some false => evaluate no

end

end Evaluate

end Reference

end DataCollectionLab.Form
