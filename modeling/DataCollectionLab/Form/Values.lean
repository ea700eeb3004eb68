import Mathlib.Algebra.Group.Int.Defs
import DataCollectionLab.Submissions.Models

/-!
The form engine's values, and how an answer's JSON is read into one. The engine is statically typed:
an object that is neither a point nor a media reference is refused.
-/

namespace DataCollectionLab.Form

/-- A `Double`, by its IEEE bit pattern. -/
abbrev Double := UInt64

inductive FormValue where
  | null
  | text (value : String)
  | integer (value : Int64)
  | decimal (value : Double)
  | bool (value : Bool)
  | dateValue (iso : String)
  | sequence (items : List FormValue)
  | geoPoint (lat lon : Double) (alt accuracy : Option Double)
  | mediaRef (id filename hash : String) (size : Int64)

structure Numerals where
  /-- The double nearest to an integer literal. -/
  doubleOfInt : Int → Double
  doubleOfText : String → Option Double
  longOfText : String → Option Int64
  longOfDouble : Double → Option Int64

namespace Numerals

variable (num : Numerals)

/-- `doubleOrNull`. It reads the content of a primitive, quoted or not. -/
def doubleOrNull : Json → Option Double
  | .int n => some (num.doubleOfInt n)
  | .float bits => some bits
  | .str text => num.doubleOfText text
  | .null | .bool _ | .arr _ | .obj _ => none

def longOrNull : Json → Option Int64
  | .int n => if -2 ^ 63 ≤ n ∧ n < 2 ^ 63 then some (Int64.ofInt n) else none
  | .float bits => num.longOfDouble bits
  | .str text => num.longOfText text
  | .null | .bool _ | .arr _ | .obj _ => none

end Numerals

/-- `content` of a quoted primitive. -/
def quoted : Json → Option String
  | .str text => some text
  | _ => none

/-- `CompileException("unsupported literal value: $element")`. -/
structure CompileException where
  element : Json

variable (num : Numerals)

def formValueFromObject (fields : List (String × Json)) : Except CompileException FormValue :=
  match (fields.lookup "lat").bind num.doubleOrNull, (fields.lookup "lon").bind num.doubleOrNull with
  | some lat, some lon => .ok (.geoPoint lat lon ((fields.lookup "alt").bind num.doubleOrNull)
      ((fields.lookup "accuracy").bind num.doubleOrNull))
  | _, _ =>
    match (fields.lookup "id").bind quoted with
    | some id => .ok (.mediaRef id (((fields.lookup "filename").bind quoted).getD "")
        (((fields.lookup "hash").bind quoted).getD "")
        (((fields.lookup "size").bind num.longOrNull).getD 0))
    | none => .error ⟨.obj fields⟩

mutual

/-- `formValueFromJson`. An integer that no `Long` holds is read as a double. -/
def formValueFromJson : Json → Except CompileException FormValue
  | .null => .ok .null
  | .str text => .ok (.text text)
  | .bool b => .ok (.bool b)
  | .int n =>
    match num.longOrNull (.int n) with
    | some long => .ok (.integer long)
    | none => .ok (.decimal (num.doubleOfInt n))
  | .float bits => .ok (.decimal bits)
  | .arr items => do return .sequence (← formValuesFromJson items)
  | .obj fields => formValueFromObject num fields

def formValuesFromJson : List Json → Except CompileException (List FormValue)
  | [] => .ok []
  | item :: rest => do
    let value ← formValueFromJson item
    return value :: (← formValuesFromJson rest)

end

end DataCollectionLab.Form
