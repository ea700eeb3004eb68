import DataCollectionLab.Form.Evaluator
import DataCollectionLab.Form.Numerals
import DataCollectionLab.Lib.Calendar

/-!
The text, cast and date functions of the device's engine. A text is a sequence of UTF-16 units there, so a
part of one need not be a text again: `substr` is given by its units.
-/

namespace DataCollectionLab.Form

open Lib

namespace Evaluator

section Texts

def textOrNull : Value → Option String
  | .text value => some value
  | _ => none

def len (a : Value) : Value :=
  match textOrNull a with
  | some s => .integer (utf16 s.toList).length
  | none => .null

/-- `toInt` of a `Long`: its low 32 bits. -/
def toInt (n : ℤ) : ℤ := n.bmod (2 ^ 32)

/-- `integerOf`: a whole decimal counts. -/
def integerOf : Value → Option ℤ
  | .integer n => some n
  | .decimal (.finite q) => if q.den = 1 then some (toLong (.finite q)) else none
  | _ => none

def coerceIn (low high n : ℤ) : ℤ := if n < low then low else if high < n then high else n

/-- `substr`, by the units of the part. -/
def substr (args : List Value) : Option (List Nat) :=
  match args with
  | a :: b :: others => do
    let units := utf16 (← textOrNull a).toList
    let start := toInt (← integerOf b)
    let first := coerceIn 0 units.length start
    match others with
    | [] | .null :: _ => return units.drop first.toNat
    | c :: _ => do
      let length := toInt (← integerOf c)
      let stop := coerceIn first units.length (toInt (first + length))
      return (units.take stop.toNat).drop first.toNat
  | _ => none

end Texts

section Casts

def castNumber : Value → Option Binary64
  | .integer n => some (.ofInt n)
  | .decimal d => some d
  | .text s => toDoubleOrNull (trim s.toList)
  | _ => none

/-- `int`. -/
def castInt (a : Value) : Value :=
  match castNumber a with
  | some d => .integer (toLong d)
  | none => .null

/-- `castText`, over the text of a double. -/
def castText (toText : Binary64 → String) : Value → Option String
  | .text s => some s
  | .integer n => some (toString n)
  | .decimal (.finite q) => some (if q.den = 1 then toString (toLong (.finite q)) else toText (.finite q))
  | .decimal d => some (toText d)
  | .bool value => some (if value then "true" else "false")
  | _ => none

/-- `str`. -/
def castStr (toText : Binary64 → String) (a : Value) : Value :=
  if a.isNull then .null else ((castText toText a).map Value.text).getD .null

end Casts

section Dates

open Calendar

def digitsOrNull : ℤ → List Nat → Option ℤ
  | value, [] => some value
  | value, unit :: rest => do digitsOrNull (value * 10 + (← Reference.digitOf unit)) rest

/-- An `Int`. -/
def int32 (n : ℤ) : Option ℤ := if -2 ^ 31 ≤ n ∧ n < 2 ^ 31 then some n else none

def toIntOrNull : List Nat → Option ℤ
  | [] => none
  | unit :: rest =>
    if unit < 0x30 then
      if rest = [] then none
      else if unit = 0x2D then do int32 (-(← digitsOrNull 0 rest))
      else if unit = 0x2B then do int32 (← digitsOrNull 0 rest)
      else none
    else do int32 (← digitsOrNull 0 (unit :: rest))

/-- `split("-")`. -/
def splitDash : List Nat → List (List Nat)
  | [] => [[]]
  | unit :: rest =>
    if unit = 0x2D then [] :: splitDash rest
    else
      match splitDash rest with
      | first :: others => (unit :: first) :: others
      | [] => [[unit]]

/-- `parseOrNull`: the first ten units are read, whatever follows. -/
def parseOrNull (iso : List Nat) : Option Ymd :=
  if iso.length < 10 then none
  else
    match splitDash (iso.take 10) with
    | [y, m, d] => do
      let y ← toIntOrNull y
      let m ← toIntOrNull m
      let d ← toIntOrNull d
      if m < 1 ∨ 12 < m ∨ d < 1 ∨ daysInMonth y m < d then none else some ⟨y, m, d⟩
    | _ => none

def isoDate : Value → Option Ymd
  | .dateValue iso | .text iso => parseOrNull (utf16 iso.toList)
  | _ => none

def ageDate (ctx : Context) : List Value → Option Ymd
  | [] | .null :: _ => parseOrNull (utf16 ctx.today.toList)
  | b :: _ => isoDate b

def ageYears (ctx : Context) : List Value → Value
  | [] => .null
  | a :: others =>
    match isoDate a, ageDate ctx others with
    | some born, some ref =>
      let years := ref.year - born.year
      .integer (if ref.month < born.month ∨ (ref.month = born.month ∧ ref.day < born.day) then years - 1
        else years)
    | _, _ => .null

def epochDays (d : Ymd) : ℤ :=
  let y := if d.month ≤ 2 then d.year - 1 else d.year
  let era := (if 0 ≤ y then y else y - 399).fdiv 400
  let yoe := y - era * 400
  let mp := if 2 < d.month then d.month - 3 else d.month + 9
  let doy := (153 * mp + 2) / 5 + d.day - 1
  let doe := yoe * 365 + yoe / 4 - yoe / 100 + doy
  era * 146097 + doe - 719468

/-- `padStart` of a number with zeros. -/
def padStart (width : ℕ) (n : ℤ) : List Char :=
  let ds := (toString n).toList
  List.replicate (width - ds.length) '0' ++ ds

/-- The date that `fromEpochDays` writes. -/
def civil (days : ℤ) : Ymd :=
  let z := (long (days + 719468)).toInt
  let era := (if 0 ≤ z then z else (long (z - 146096)).toInt).fdiv 146097
  let doe := z - era * 146097
  let yoe := (doe - doe / 1460 + doe / 36524 - doe / 146096) / 365
  let y := yoe + era * 400
  let doy := doe - (365 * yoe + yoe / 4 - yoe / 100)
  let mp := (5 * doy + 2) / 153
  let day := doy - (153 * mp + 2) / 5 + 1
  let month := if mp < 10 then mp + 3 else mp - 9
  ⟨if month ≤ 2 then y + 1 else y, month, day⟩

def fromEpochDays (days : ℤ) : List Char :=
  let d := civil days
  padStart 4 d.year ++ '-' :: padStart 2 d.month ++ '-' :: padStart 2 d.day

def dateDiffDays (a b : Value) : Value :=
  match isoDate a, isoDate b with
  | some a, some b => .integer (epochDays a - epochDays b)
  | _, _ => .null

/-- `date_add_days`; the sum wraps. -/
def dateAddDays (a b : Value) : Value :=
  match isoDate a, integerOf b with
  | some d, some days => .text (String.ofList (fromEpochDays (long (epochDays d + days)).toInt))
  | _, _ => .null

end Dates

end Evaluator

end DataCollectionLab.Form
