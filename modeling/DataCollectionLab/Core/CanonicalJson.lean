import DataCollectionLab.Crypto.CanonicalReading
import DataCollectionLab.Lib.Lists
import DataCollectionLab.Lib.Utf16

/-!
`CanonicalJson` of the device, over strings of UTF-16 units: it must give the bytes `canonical_json` gives. Numbers are
restyled, keys are compared by code point, and only what must be is escaped.
-/

namespace DataCollectionLab.Core.CanonicalJson

open Lib
open Lib.Utf16 (Units units isHighSurrogate isLowSurrogate)
open Crypto (Doubles Layout isFinite magnitude negative restyle significant dumps dumpsAll dumpsFields canonicalJson Valid Same)

inductive JsonElement where
  | null
  | primitive (content : Units) (isString : Bool)
  | array (items : List JsonElement)
  /-- A map, in its iteration order. -/
  | object (entries : List (Units × JsonElement))

structure Printer extends Doubles where
  /-- `toString` of a positive double. -/
  layout (m : ℕ) : Layout (shortest m)
  pointed : ∀ m, (layout m).point ≠ none

/-- `Double.toString` -/
def Printer.toText (printer : Printer) (bits : UInt64) : List Char :=
  (if negative bits then ['-'] else []) ++
    if magnitude bits = 0 then ['0', '.', '0'] else (printer.layout (magnitude bits)).text

structure Platform extends Printer where
  toDouble : Units → Option UInt64
  /-- A printed double reads as itself. -/
  reads : ∀ bits, isFinite bits = true → toDouble (Utf16.encode (toPrinter.toText bits)) = some bits

def unit (c : Char) : UInt16 := UInt16.ofNat c.toNat

def literal (text : String) : Units := Utf16.encode text.toList

/-- One unit, as `writeString` appends it. -/
def writeChar (ch : UInt16) : Units :=
  if ch = unit '"' then literal "\\\""
  else if ch = unit '\\' then literal "\\\\"
  else if ch = unit '\n' then literal "\\n"
  else if ch = unit '\t' then literal "\\t"
  else if ch = unit '\r' then literal "\\r"
  else if ch = unit (Char.ofNat 8) then literal "\\b"
  else if ch = unit (Char.ofNat 12) then literal "\\f"
  else if ch < unit ' ' then literal "\\u" ++ Utf16.encode ((Nat.toDigits 16 ch.toNat).leftpad 4 '0')
  else [ch]

def writeString (s : Units) : Units := unit '"' :: (s.flatMap writeChar ++ [unit '"'])

/-- `INT_PATTERN.matches` -/
def intPattern (content : Units) : Bool :=
  let digits := if content.head? = some (unit '-') then content.tail else content
  !digits.isEmpty && digits.all fun ch => unit '0' ≤ ch && ch ≤ unit '9'

def codePointAt (high : UInt16) : Units → ℕ
  | [] => high.toNat
  | low :: _ =>
    if isHighSurrogate high && isLowSurrogate low then
      (high.toNat - 0xD800) * 0x400 + (low.toNat - 0xDC00) + 0x10000
    else high.toNat

def compareCodePoints : Units → Units → Ordering
  | a :: as, b :: bs =>
    if codePointAt a as ≠ codePointAt b bs then compare (codePointAt a as) (codePointAt b bs)
    else
      compareCodePoints (as.drop (if 0xFFFF < codePointAt a as then 1 else 0))
        (bs.drop (if 0xFFFF < codePointAt b bs then 1 else 0))
  | as, bs => compare as.length bs.length
termination_by as => as.length
decreasing_by
  rw [List.length_drop, List.length_cons]
  omega

def sortedKeys (keys : List Units) : List Units := keys.insertionSort fun a b => (compareCodePoints a b).isLE

section Write

variable (platform : Platform)

def formatDouble (bits : UInt64) : Option (List Char) :=
  if !isFinite bits then none
  else if magnitude bits = 0 then some (if negative bits then "-0.0".toList else "0.0".toList)
  else do
    let (digits, e) ← significant (platform.layout (magnitude bits)).text
    return (if negative bits then ['-'] else []) ++ restyle digits e

def writePrimitive (content : Units) (isString : Bool) : Option Units :=
  if isString then some (writeString content)
  else if content = literal "true" ∨ content = literal "false" then some content
  else if intPattern content then some content
  else do return Utf16.encode (← formatDouble platform (← platform.toDouble content))

mutual

def write : JsonElement → Option Units
  | .null => some (literal "null")
  | .primitive content isString => writePrimitive platform content isString
  | .array items => (writeAll items).map fun texts => unit '[' :: (joined (unit ',') texts ++ [unit ']'])
  | .object entries => do
    let written ← writeEntries entries
    let texts ← (sortedKeys (entries.map Prod.fst)).mapM fun key =>
      (written.lookup key).map fun text => writeString key ++ unit ':' :: text
    return unit '\x7b' :: (joined (unit ',') texts ++ [unit '\x7d'])

def writeAll : List JsonElement → Option (List Units)
  | [] => some []
  | item :: rest => do return (← write item) :: (← writeAll rest)

def writeEntries : List (Units × JsonElement) → Option (List (Units × Units))
  | [] => some []
  | (key, item) :: rest => do return (key, ← write item) :: (← writeEntries rest)

end

def encodeToByteArray (text : Units) : Bytes := utf8 (String.ofList (Utf16.decode text))

def encode (value : JsonElement) : Option Bytes := (write platform value).map encodeToByteArray

end Write

/-- The element holds the value. A double may be there in any text that reads as it. -/
inductive Carries (platform : Platform) : JsonElement → Json → Prop
  | null : Carries platform .null .null
  | bool (b : Bool) : Carries platform (.primitive (literal (if b then "true" else "false")) false) (.bool b)
  | int (n : Int) : Carries platform (.primitive (literal (toString n)) false) (.int n)
  | float {content : Units} {bits : UInt64} : platform.toDouble content = some bits → intPattern content = false →
      content ≠ literal "true" → content ≠ literal "false" → Carries platform (.primitive content false) (.float bits)
  | str (text : String) : Carries platform (.primitive (literal text) true) (.str text)
  | array {items : List JsonElement} {values : List Json} : List.Forall₂ (Carries platform) items values →
      Carries platform (.array items) (.arr values)
  | object {entries : List (Units × JsonElement)} {fields ordered : List (String × Json)} : fields.Perm ordered →
      (entries.map Prod.fst).Nodup → entries.map Prod.fst = ordered.map (fun p => literal p.1) →
      List.Forall₂ (Carries platform) (entries.map Prod.snd) (ordered.map Prod.snd) →
      Carries platform (.object entries) (.obj fields)

section Of

variable (platform : Platform)

mutual

def elementOf : Json → JsonElement
  | .null => .null
  | .bool b => .primitive (literal (if b then "true" else "false")) false
  | .int n => .primitive (literal (toString n)) false
  | .float bits => .primitive (Utf16.encode (platform.toText bits)) false
  | .str text => .primitive (literal text) true
  | .arr items => .array (elementsOf items)
  | .obj fields => .object (entriesOf fields)

def elementsOf : List Json → List JsonElement
  | [] => []
  | v :: rest => elementOf v :: elementsOf rest

def entriesOf : List (String × Json) → List (Units × JsonElement)
  | [] => []
  | (key, v) :: rest => (literal key, elementOf v) :: entriesOf rest

end

end Of

end DataCollectionLab.Core.CanonicalJson
