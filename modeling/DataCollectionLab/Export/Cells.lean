import DataCollectionLab.Form.Resolve
import DataCollectionLab.Submissions.Models

/-!
One cell of an export: how a value is written, how it is read back, and what a value becomes on the way.
-/

namespace DataCollectionLab.Export

open Form Lib

structure Python where
  /-- `str` of a list or a dict. -/
  repr : Json → String
  /-- `repr` of a float. -/
  reprFloat : Binary64 → String
  /-- `json.dumps` with sorted keys. -/
  dumps : Json → String
  /-- `json.loads`; none where it raises. -/
  loads : String → Option Json
  lower : String → String

/-- A rendered cell. `empty` is unanswered, or not asked. -/
inductive Cell where
  | empty
  | text (value : String)
  | int (value : ℤ)
  | float (value : Binary64)
  deriving DecidableEq

def encrypted : String := "ENCRYPTED"

def geopointParts : List String := ["lat", "lon", "alt", "accuracy"]

def mediaParts : List String := ["filename", "id", "hash", "size"]

def mediaTypes : List String := ["image", "audio", "video", "file", "signature", "drawing"]

def components (dataType : String) : Option (List String) :=
  if dataType = "geopoint" then some geopointParts
  else if dataType ∈ mediaTypes then some mediaParts
  else none

def choiceTypes : List String := ["select_one", "select_multiple"]

def multipleSeparator : String := " "

def labelSeparator : String := " | "

def numericComponents : List String := ["lat", "lon", "alt", "accuracy", "size"]

section Coercions

def str (py : Python) : Json → String
  | .str s => s
  | .int n => toString n
  | .bool b => if b then "True" else "False"
  | .null => "None"
  | .float bits => py.reprFloat (decode bits)
  | value => py.repr value

/-- `bool`. -/
def truthy : Json → Bool
  | .null => false
  | .bool b => b
  | .int n => n ≠ 0
  | .float bits => decode bits ≠ .finite 0
  | .str s => s ≠ ""
  | .arr items => items ≠ []
  | .obj fields => fields ≠ []

/-- `int`. -/
def intOf : Json → Except Failure ℤ
  | .int n => .ok n
  | .bool b => .ok (if b then 1 else 0)
  | .float bits => Reference.intOfFloat (decode bits)
  | .str s =>
    match Reference.intOfText s.toList with
    | some n => .ok n
    | none => .error (.raised "ValueError")
  | .null | .arr _ | .obj _ => .error (.raised "TypeError")

/-- `float`. -/
def floatOf : Json → Except Failure Binary64
  | .int n => Reference.toFloat (.int n)
  | .bool b => .ok (.finite (if b then 1 else 0))
  | .float bits => .ok (decode bits)
  | .str s =>
    match Reference.float s with
    | some d => .ok d
    | none => .error (.raised "ValueError")
  | .null | .arr _ | .obj _ => .error (.raised "TypeError")

end Coercions

def finite : Binary64 → Cell
  | .finite q => .float (.finite q)
  | .inf _ | .nan => .empty

/-- `text or None`. -/
def textCell (text : String) : Cell := if text = "" then .empty else .text text

def component (py : Python) (value : Json) (part : String) : Except Failure Cell :=
  match value with
  | .obj fields =>
    match fields.lookup part with
    | none | some .null => .ok .empty
    | some found =>
      if part = "size" then do return .int (← intOf found)
      else if part ∈ numericComponents then do return finite (← floatOf found)
      else .ok (textCell (str py found))
  | _ => .ok .empty

def render (py : Python) (value : Json) (dataType : String) (part : Option String) : Except Failure Cell :=
  match value, part with
  | .null, _ => .ok .empty
  | value, some part => component py value part
  | value, none =>
    if (components dataType).isSome then .ok .empty
    else if dataType = "boolean" then .ok (.int (if truthy value then 1 else 0))
    else if dataType = "integer" then do return .int (← intOf value)
    else if dataType = "decimal" then do return finite (← floatOf value)
    else if dataType = "select_multiple" then
      match value with
      | .arr (item :: rest) => .ok (.text (multipleSeparator.intercalate ((item :: rest).map (str py))))
      | _ => .ok .empty
    else if dataType = "geotrace" ∨ dataType = "geoshape" then
      .ok (if truthy value then .text (py.dumps value) else .empty)
    else .ok (textCell (str py value))

inductive Scalar where
  | null
  | text (value : String)
  | flag (value : Bool)
  | whole (value : ℤ)
  | real (value : Binary64)
  | codes (items : List String)
  | shape (value : Json)

inductive Parsed where
  | scalar (value : Scalar)
  | parts (values : String → Option Scalar)

/-- `float(cell)`. -/
def cellFloat : Cell → Except Failure Binary64
  | .empty => .error (.raised "TypeError")
  | .text s =>
    match Reference.float s with
    | some d => .ok d
    | none => .error (.raised "ValueError")
  | .int n => Reference.toFloat (.int n)
  | .float d => .ok d

/-- `str(cell)`. -/
def cellText (py : Python) : Cell → String
  | .empty => "None"
  | .text s => s
  | .int n => toString n
  | .float d => py.reprFloat d

/-- The reading of a boolean: a number if it is one, else anything but `false`. -/
def parseFlag (py : Python) (cell : Cell) : Except Failure Scalar :=
  match cellFloat cell with
  | .ok d => .ok (.flag (d ≠ .finite 0))
  | .error e =>
    if e = .raised "TypeError" ∨ e = .raised "ValueError" then
      .ok (.flag (py.lower (String.ofList (Reference.strip (cellText py cell).toList)) ≠ "false"))
    else .error e

def parse (py : Python) (cell : Cell) (dataType : String) (part : Option String) : Except Failure Scalar :=
  if cell = .empty ∨ cell = .text "" then .ok .null
  else if cell = .text encrypted then .ok (.text encrypted)
  else
    match part with
    | some part =>
      if part ∈ numericComponents then do
        let number ← cellFloat cell
        if part = "size" then return .whole (← Reference.intOfFloat number) else return .real number
      else .ok (.text (cellText py cell))
    | none =>
      if dataType = "boolean" then parseFlag py cell
      else if dataType = "integer" then do return .whole (← Reference.intOfFloat (← cellFloat cell))
      else if dataType = "decimal" then do return .real (← cellFloat cell)
      else if dataType = "select_multiple" then
        let items := ((cellText py cell).splitOn multipleSeparator).filter (· ≠ "")
        .ok (if items = [] then .null else .codes items)
      else if dataType = "geotrace" ∨ dataType = "geoshape" then
        match py.loads (cellText py cell) with
        | none => .error (.raised "JSONDecodeError")
        | some value => .ok (if truthy value then .shape value else .null)
      else .ok (.text (cellText py cell))

def canonicalValue (py : Python) (value : Json) (dataType : String) : Except Failure Parsed :=
  match value with
  | .null => .ok (.scalar .null)
  | value =>
    match components dataType with
    | some parts =>
      match value with
      | .obj fields => do
        let values ← parts.mapM fun part => do
          return (part, ← parse py (← component py (.obj fields) part) dataType (some part))
        return .parts fun name => values.lookup name
      | _ => .ok (.scalar .null)
    | none => do return .scalar (← parse py (← render py value dataType none) dataType none)

end DataCollectionLab.Export
