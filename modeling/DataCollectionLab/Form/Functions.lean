import DataCollectionLab.Form.Numerals
import DataCollectionLab.Form.Reference
import DataCollectionLab.Lib.Calendar

/-!
The functions of the reference engine, and the table that `evaluate` calls them by.
-/

namespace DataCollectionLab.Form

open Lib

structure Library where
  upper : String → String
  lower : String → String
  /-- `str` of a float that is not whole. -/
  repr : Binary64 → String
  /-- `re.search` of a pattern in a subject; none where it raises `re.error`. -/
  search : String → String → Except Failure (Option Bool)
  sin : Binary64 → Binary64
  cos : Binary64 → Binary64
  tan : Binary64 → Binary64
  atan : Binary64 → Binary64
  asin : Binary64 → Binary64
  sqrt : Binary64 → Binary64
  /-- One degree in radians. -/
  degree : Binary64

def noLibrary : Library where
  upper := id
  lower := id
  repr := fun _ => ""
  search := fun _ _ => .ok none
  sin := id
  cos := id
  tan := id
  atan := id
  asin := id
  sqrt := id
  degree := .finite 0

namespace Reference

section Dates

open Calendar

def parseDigits : ℕ → ℤ → List Char → Option (ℤ × List Char)
  | 0, value, rest => some (value, rest)
  | count + 1, value, c :: rest => do parseDigits count (value * 10 + (← Numeral.digit c)) rest
  | _ + 1, _, [] => none

def date (year month day : ℤ) : Option Ymd :=
  if 1 ≤ year ∧ year ≤ 9999 ∧ 1 ≤ month ∧ month ≤ 12 ∧ 1 ≤ day ∧ day ≤ daysInMonth year month then
    some ⟨year, month, day⟩
  else none

def weekday (d : Ymd) : ℤ := (ordinal d + 6) % 7

def firstMonday (year : ℤ) : ℤ :=
  let first := ordinal ⟨year, 1, 1⟩
  let monday := first - weekday ⟨year, 1, 1⟩
  if weekday ⟨year, 1, 1⟩ > 3 then monday + 7 else monday

def isoWeek (year week day : ℤ) : Option Ymd :=
  let first := weekday ⟨year, 1, 1⟩
  let long := first = 3 ∨ (first = 2 ∧ leap year)
  if year < 1 ∨ 9999 < year then none
  else if week ≤ 0 ∨ 53 < week ∨ (week = 53 ∧ ¬ long) then none
  else if day ≤ 0 ∨ 8 ≤ day then none
  else
    let d := ofOrdinal (firstMonday year + (week - 1) * 7 + day - 1)
    date d.year d.month d.day

def separator (dashed : Bool) : List Char → Option (List Char)
  | '-' :: rest => some (if dashed then rest else '-' :: rest)
  | rest => if dashed then none else some rest

def utf8Bytes (c : Char) : ℕ :=
  if c.toNat < 0x80 then 1 else if c.toNat < 0x800 then 2 else if c.toNat < 0x10000 then 3 else 4

/-- `date.fromisoformat`; none where it raises `ValueError`. It takes texts of 7, 8 and 10 bytes, and what
follows an undashed date is not read. -/
def fromisoformat (cs : List Char) : Option Ymd :=
  let bytes := (cs.map utf8Bytes).sum
  if bytes ≠ 7 ∧ bytes ≠ 8 ∧ bytes ≠ 10 then none
  else do
    let (year, rest) ← parseDigits 4 0 cs
    let dashed := rest.head? = some '-'
    let rest := if dashed then rest.tail else rest
    match rest with
    | 'W' :: rest => do
      let (week, rest) ← parseDigits 2 0 rest
      if rest = [] then isoWeek year week 1
      else do
        let (day, _) ← parseDigits 1 0 (← separator dashed rest)
        isoWeek year week day
    | rest => do
      let (month, rest) ← parseDigits 2 0 rest
      let (day, _) ← parseDigits 2 0 (← separator dashed rest)
      date year month day

def padded (width : ℕ) (n : ℤ) : List Char :=
  let ds := (toString n).toList
  List.replicate (width - ds.length) '0' ++ ds

def isoformat (d : Ymd) : List Char := padded 4 d.year ++ '-' :: padded 2 d.month ++ '-' :: padded 2 d.day

def dateOrNone : Value → Option Ymd
  | .text iso | .dateValue iso => fromisoformat iso.toList
  | _ => none

/-- `_integer`: a whole decimal counts. -/
def integer (a : Value) : Option ℤ :=
  match number a with
  | some (.int n) => some n
  | some (.float (.finite q)) => if q.den = 1 then some q.num else none
  | _ => none

def ageDate (ctx : Context) : List Value → Option Ymd
  | [] | .null :: _ => fromisoformat ctx.today.toList
  | b :: _ => dateOrNone b

/-- `_fn_age_years`. -/
def ageYears (ctx : Context) : List Value → Value
  | [] => .null
  | a :: others =>
    match dateOrNone a, ageDate ctx others with
    | some born, some ref =>
      let years := ref.year - born.year
      .integer (if ref.month < born.month ∨ (ref.month = born.month ∧ ref.day < born.day) then years - 1
        else years)
    | _, _ => .null

/-- `_fn_date_diff_days`. -/
def dateDiffDays (a b : Value) : Value :=
  match dateOrNone a, dateOrNone b with
  | some a, some b => .integer (ordinal a - ordinal b)
  | _, _ => .null

/-- `a + timedelta(days=days)`; none where it raises `OverflowError`. -/
def addDays (d : Ymd) (days : ℤ) : Option Ymd :=
  let moved := ofOrdinal (ordinal d + days)
  if 1 ≤ moved.year ∧ moved.year ≤ 9999 then some moved else none

/-- `_fn_date_add_days`. -/
def dateAddDays (a b : Value) : Value :=
  match dateOrNone a, integer b with
  | some d, some days =>
    match addDays d days with
    | some moved => .text (String.ofList (isoformat moved))
    | none => .null
  | _, _ => .null

end Dates

section Texts

def text : Value → Option String
  | .text value => some value
  | _ => none

/-- `_fn_len`. -/
def len (a : Value) : Value :=
  match text a with
  | some s => .integer s.toList.length
  | none => .null

def sliceIndex (length : ℕ) (i : ℤ) : ℕ := (if i < 0 then max 0 (i + length) else min i length).toNat

/-- `text[start:stop]`. -/
def slice (cs : List Char) (start : ℤ) (stop : Option ℤ) : List Char :=
  let last := match stop with
    | some stop => sliceIndex cs.length stop
    | none => cs.length
  (cs.take last).drop (sliceIndex cs.length start)

/-- `_fn_substr`. -/
def substr (args : List Value) : Value :=
  match args with
  | a :: b :: others =>
    match text a, integer b with
    | some s, some start =>
      match others with
      | [] | .null :: _ => .text (String.ofList (slice s.toList start none))
      | c :: _ =>
        match integer c with
        | some length => .text (String.ofList (slice s.toList start (some (start + length))))
        | none => .null
    | _, _ => .null
  | _ => .null

def text1 (op : String → String) (a : Value) : Value :=
  match text a with
  | some s => .text (op s)
  | none => .null

def text2 (op : List Char → List Char → Bool) (a b : Value) : Value :=
  match text a, text b with
  | some s, some t => .bool (op s.toList t.toList)
  | _, _ => .null

def forbiddenRegexFeatures : List String := ["(?=", "(?!", "(?<=", "(?<!", "\\1", "\\2"]

/-- `forbidden_regex_feature(pattern) is not None`. -/
def forbidden (pattern : String) : Bool :=
  forbiddenRegexFeatures.any fun feature => (cutAt feature.toList pattern.toList).isSome

/-- `_fn_regex`. -/
def regex (lib : Library) (a b : Value) : Except Failure Value :=
  match text a, text b with
  | some subject, some pattern =>
    if forbidden pattern then .ok .null
    else do
      match ← lib.search pattern subject with
      | some found => return .bool found
      | none => return .null
  | _, _ => .ok .null

end Texts

section Numbers

def numbers (a : Value) : List Num := (seq a).filterMap number

def valueOf : Num → Value
  | .int n => .integer n
  | .float d => .decimal d

/-- `x + y` of two numbers. -/
def plus : Num → Num → Except Failure Num
  | .int m, .int n => .ok (.int (m + n))
  | x, y => do return .float ((← toFloat x).add (← toFloat y))

def sumAny (total : Num) : List Num → Except Failure Num
  | [] => .ok total
  | x :: rest => do sumAny (← plus total x) rest

def sumFloats (total lost : Binary64) : List Num → Except Failure Num
  | [] => .ok (.float (if lost ≠ .finite 0 ∧ lost.isFinite then total.add lost else total))
  | .float x :: rest =>
    let next := total.add x
    let dropped := if x.abs.le total.abs then (total.sub next).add x else (x.sub next).add total
    sumFloats next (lost.add dropped) rest
  | .int n :: rest =>
    if inRange n then sumFloats (total.add (.ofInt n)) lost rest
    else do
      let total := if lost ≠ .finite 0 ∧ lost.isFinite then total.add lost else total
      sumAny (← plus (.float total) (.int n)) rest

/-- `sum`: machine integers while they last. -/
def sumInts (total : ℤ) : List Num → Except Failure Num
  | [] => .ok (.int total)
  | .int n :: rest =>
    if inRange n ∧ inRange (total + n) then sumInts (total + n) rest else sumAny (.int (total + n)) rest
  | .float x :: rest => sumFloats ((Binary64.ofInt total).add x) (.finite 0) rest

/-- `_fn_sum`. -/
def sum (a : Value) : Except Failure Value := do return valueOf (← sumInts 0 (numbers a))

def extreme (before : Binary64 → Binary64 → Bool) : List Num → Value
  | [] => .null
  | x :: rest => valueOf (rest.foldl (fun best y => if before y.exact best.exact then y else best) x)

/-- `_fn_min`. -/
def min (a : Value) : Value := extreme Binary64.lt (numbers a)

/-- `_fn_max`. -/
def max (a : Value) : Value := extreme (fun x y => y.lt x) (numbers a)

/-- `_fn_count`. -/
def count (a : Value) : Value := .integer ((seq a).filter (! ·.isNull)).length

/-- `_fn_count_selected`. -/
def countSelected (a : Value) : Value := if a.isNull then .integer 0 else .integer (seq a).length

/-- `_fn_coalesce`. -/
def coalesce (args : List Value) : Value := (args.find? (! ·.isNull)).getD .null

def asNumber : Value → Except Failure (Option Binary64)
  | .integer n => do return some (← toFloat (.int n))
  | .decimal d => .ok (some d)
  | .text s => .ok (float s)
  | _ => .ok none

def castInt (a : Value) : Except Failure Value := do
  match ← asNumber a with
  | none => return .null
  | some d => return .integer (← intOfFloat d)

def castDec (a : Value) : Except Failure Value := do
  match ← asNumber a with
  | none => return .null
  | some d => return .decimal d

/-- `_cast_str`; `none` is null. -/
def castStr (lib : Library) : Value → Option String
  | .null => none
  | .bool value => some (if value then "true" else "false")
  | .decimal (.finite q) => some (if q.den = 1 then toString q.num else lib.repr (.finite q))
  | .decimal d => some (lib.repr d)
  | .integer n => some (toString n)
  | .text s | .dateValue s => some s
  | .sequence _ | .geoPoint .. | .mediaRef .. => none

/-- `_fn_concat`. -/
def concat (lib : Library) (args : List Value) : Value :=
  .text (String.join (args.map fun a => (castStr lib a).getD ""))

def maxRoundDigits : ℤ := 15

/-- `10**digits`. -/
def power (digits : ℤ) : Num := if 0 ≤ digits then .int (10 ^ digits.toNat) else .float (.round (10 ^ digits))

/-- `number * factor`. -/
def times : Num → Num → Except Failure Num
  | .int m, .int n => .ok (.int (m * n))
  | x, y => do return .float ((← toFloat x).mul (← toFloat y))

def roundHalf (scaled : Num) : Except Failure ℤ := do
  let d ← toFloat scaled
  if Binary64.le (.finite 0) scaled.exact then intOfFloat (d.add (.finite (1 / 2))).floor
  else intOfFloat (d.sub (.finite (1 / 2))).ceil

/-- `_fn_round`. -/
def round (args : List Value) : Except Failure Value :=
  match args with
  | [] => .error (.raised "IndexError")
  | a :: others =>
    match number a with
    | none => .ok .null
    | some x =>
      let digits := match others with
        | [] | .null :: _ => some 0
        | b :: _ => (integer b).filter fun n => |n| ≤ maxRoundDigits
      match digits with
      | none => .ok .null
      | some digits => do
        let rounded ← roundHalf (← times x (power digits))
        if 0 < digits then return .decimal (← trueDiv rounded (10 ^ digits.toNat)) else return .integer rounded

/-- `_fn_sqrt`. -/
def sqrt (lib : Library) (a : Value) : Except Failure Value :=
  match number a with
  | none => .ok .null
  | some x => if Binary64.lt x.exact (.finite 0) then .ok .null else do return .decimal (lib.sqrt (← toFloat x))

def bounded (f : Binary64 → Binary64) (d : Binary64) : Except Failure Binary64 :=
  match d with
  | .inf _ => .error (.raised "ValueError")
  | d => .ok (f d)

def trig (fn : Binary64 → Except Failure Binary64) (a : Value) : Except Failure Value :=
  match number a with
  | none => .ok .null
  | some x => do return .decimal (← fn (← toFloat x))

/-- `round(x, 3)`. -/
def toMillimetres : Binary64 → Binary64
  | .finite q => .round (Binary64.roundEven (q * 1000) / 1000)
  | d => d

def asin (lib : Library) (d : Binary64) : Except Failure Binary64 :=
  if Binary64.lt (.finite 1) d.abs then .error (.raised "ValueError") else .ok (lib.asin d)

/-- `_fn_distance`. -/
def distance (lib : Library) (a b : Value) : Except Failure Value :=
  match a, b with
  | .geoPoint lat lon _ _, .geoPoint lat' lon' _ _ => do
    let radians (d : Binary64) := d.mul lib.degree
    let half (d : Binary64) := d.div (.finite 2)
    let s ← bounded lib.sin (half ((radians lat').sub (radians lat)))
    let c ← bounded lib.cos (radians lat)
    let c' ← bounded lib.cos (radians lat')
    let t ← bounded lib.sin (half ((radians lon').sub (radians lon)))
    let h := (s.mul s).add ((c.mul c').mul (t.mul t))
    let root := lib.sqrt h
    if Binary64.lt h (.finite 0) then .error (.raised "ValueError")
    else return .decimal (toMillimetres ((Binary64.round (2 * 63710088 / 10)).mul (← asin lib root)))
  | _, _ => .ok .null

end Numbers

/-- `_fn_pulldata`. -/
def pulldata (ctx : Context) (dataset column keyColumn key : Value) : Value :=
  match text dataset, text column, text keyColumn, ctx.datasets with
  | some dataset, some column, some keyColumn, some rows =>
    if key.isNull then .null
    else ((rows dataset keyColumn key).head?.bind fun row => row column).getD .null
  | _, _, _, _ => .null

section Table

variable (lib : Library) (ctx : Context)

def one (f : Value → Except Failure Value) : List Value → Except Failure Value
  | a :: _ => f a
  | [] => .error (.raised "IndexError")

def two (f : Value → Value → Except Failure Value) : List Value → Except Failure Value
  | a :: b :: _ => f a b
  | _ => .error (.raised "IndexError")

def within (x y : List Char) : Bool := (cutAt y x).isSome || y = []

/-- `FUNCTIONS`: each function with the least and the most arguments it takes. -/
def table : List (String × (List Value → Except Failure Value) × ℕ × ℕ) :=
  [("count", one fun a => .ok (count a), 1, 1),
    ("sum", one sum, 1, 1),
    ("min", one fun a => .ok (min a), 1, 1),
    ("max", one fun a => .ok (max a), 1, 1),
    ("count_selected", one fun a => .ok (countSelected a), 1, 1),
    ("coalesce", fun args => .ok (coalesce args), 1, 99),
    ("today", fun _ => .ok (.text ctx.today), 0, 0),
    ("now", fun _ => .ok (.text ctx.now), 0, 0),
    ("age_years", fun args => .ok (ageYears ctx args), 1, 2),
    ("date_diff_days", two fun a b => .ok (dateDiffDays a b), 2, 2),
    ("date_add_days", two fun a b => .ok (dateAddDays a b), 2, 2),
    ("len", one fun a => .ok (len a), 1, 1),
    ("upper", one fun a => .ok (text1 lib.upper a), 1, 1),
    ("lower", one fun a => .ok (text1 lib.lower a), 1, 1),
    ("trim", one fun a => .ok (text1 (fun s => String.ofList (strip s.toList)) a), 1, 1),
    ("concat", fun args => .ok (concat lib args), 1, 99),
    ("substr", fun args => .ok (substr args), 2, 3),
    ("contains", two fun a b => .ok (text2 within a b), 2, 2),
    ("starts_with", two fun a b => .ok (text2 (fun x y => y.isPrefixOf x) a b), 2, 2),
    ("ends_with", two fun a b => .ok (text2 (fun x y => y.isSuffixOf x) a b), 2, 2),
    ("regex", two (regex lib), 2, 2),
    ("round", round, 1, 2),
    ("int", one castInt, 1, 1),
    ("dec", one castDec, 1, 1),
    ("str", one fun a => .ok (((castStr lib a).map Value.text).getD .null), 1, 1),
    ("distance", two (distance lib), 2, 2),
    ("pulldata", fun args => match args with
      | a :: b :: c :: d :: _ => .ok (pulldata ctx a b c d)
      | _ => .error (.raised "IndexError"), 4, 4),
    ("sqrt", one (sqrt lib), 1, 1),
    ("sin", one (trig (bounded lib.sin)), 1, 1),
    ("cos", one (trig (bounded lib.cos)), 1, 1),
    ("tan", one (trig (bounded lib.tan)), 1, 1),
    ("atan", one (trig fun d => .ok (lib.atan d)), 1, 1),
    ("is_null", one fun a => .ok (.bool a.isNull), 1, 1),
    ("is_not_null", one fun a => .ok (.bool !a.isNull), 1, 1)]

/-- The branch `call` of `evaluate`: the function, and then the number of its arguments. -/
def call (fn : String) : Except Failure (List Value → Except Failure Value) :=
  match (table lib ctx).lookup fn with
  | none => .error (.compile ("unknown function: " ++ fn))
  | some (impl, minArity, maxArity) =>
    .ok fun args =>
      if minArity ≤ args.length ∧ args.length ≤ maxArity then impl args
      else .error (.compile ("function " ++ fn ++ " expects " ++ toString minArity ++ ".." ++ toString maxArity ++
        " args, got " ++ toString args.length))

end Table

end Reference

end DataCollectionLab.Form
