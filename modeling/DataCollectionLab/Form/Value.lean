import DataCollectionLab.Form.Choices
import DataCollectionLab.Lib.Binary64

/-!
What the two expression engines compute with. One type serves both: an integer of the reference engine has
no bound, and one of the device is a `Long`.
-/

namespace DataCollectionLab.Form

open Lib

inductive Value where
  | null
  | text (value : String)
  | integer (value : ℤ)
  | decimal (value : Binary64)
  | bool (value : Bool)
  | dateValue (iso : String)
  | sequence (items : List Value)
  | geoPoint (lat lon : Binary64) (alt accuracy : Option Binary64)
  | mediaRef (id filename hash : String) (size : ℤ)

inductive Failure where
  /-- `EvaluationError("integer overflow")`. -/
  | overflow
  /-- `EvaluationError`: expected boolean at boundary. -/
  | boundary
  /-- `CompileError`, by its message. -/
  | compile (message : String)
  /-- Another exception of the language, by its name. -/
  | raised (name : String)
  deriving DecidableEq, Repr

def decode (bits : Double) : Binary64 :=
  let exponent : ℕ := bits.toNat / 2 ^ 52 % 2 ^ 11
  let fraction : ℕ := bits.toNat % 2 ^ 52
  let negative : Bool := 2 ^ 63 ≤ bits.toNat
  if exponent = 2047 then if fraction = 0 then .inf negative else .nan
  else
    let size : ℚ :=
      if exponent = 0 then fraction * 2 ^ (-1074 : ℤ) else (2 ^ 52 + fraction) * 2 ^ ((exponent : ℤ) - 1075)
    .finite (if negative then -size else size)

mutual

def Value.ofForm : FormValue → Value
  | .null => .null
  | .text value => .text value
  | .integer value => .integer value.toInt
  | .decimal value => .decimal (decode value)
  | .bool value => .bool value
  | .dateValue iso => .dateValue iso
  | .sequence items => .sequence (Value.ofForms items)
  | .geoPoint lat lon alt accuracy =>
    .geoPoint (decode lat) (decode lon) (alt.map decode) (accuracy.map decode)
  | .mediaRef id filename hash size => .mediaRef id filename hash size.toInt

def Value.ofForms : List FormValue → List Value
  | [] => []
  | value :: rest => Value.ofForm value :: Value.ofForms rest

end

def inRange (n : ℤ) : Bool := -2 ^ 63 ≤ n && n < 2 ^ 63

theorem inRange_iff {n : ℤ} : inRange n = true ↔ -2 ^ 63 ≤ n ∧ n < 2 ^ 63 := by
  simp [inRange]

def Value.isNull : Value → Bool
  | .null => true
  | _ => false

/-- `EvalContext`: what one evaluation may read. -/
structure Context where
  values : String → Option Value
  today : String
  now : String
  row : Option (String → Option Value) := none
  metadata : String → Option Value := fun _ => none
  /-- The repeat and the instance of it, inside one. -/
  scope : Option (String × String) := none
  /-- The instance ids of a repeat, in order. -/
  instances : String → Option (List String) := fun _ => none
  /-- The rows of a dataset whose column has a value. -/
  datasets : Option (String → String → Value → List (String → Option Value)) := none

inductive Operator where
  | cond | and | or | not | neg | add | sub | mul | div | idiv | mod
  | eq | ne | lt | lte | gt | gte | selected | isIn
  deriving DecidableEq, Repr

def Operator.names : List (String × Operator) :=
  [("if", .cond), ("and", .and), ("or", .or), ("not", .not), ("neg", .neg), ("add", .add), ("sub", .sub),
    ("mul", .mul), ("div", .div), ("idiv", .idiv), ("mod", .mod), ("eq", .eq), ("ne", .ne), ("lt", .lt),
    ("lte", .lte), ("gt", .gt), ("gte", .gte), ("selected", .selected), ("in", .isIn)]

def Operator.named (name : String) : Option Operator := Operator.names.lookup name

def lexLt : List Nat → List Nat → Bool
  | _, [] => false
  | [], _ :: _ => true
  | a :: left, b :: right => a < b || (a = b && lexLt left right)

end DataCollectionLab.Form
