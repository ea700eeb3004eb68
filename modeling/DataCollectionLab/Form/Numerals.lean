import DataCollectionLab.Lib.Binary64

/-!
How the two languages read a number in a text. Both read a decimal numeral; each also reads what the other
does not: `float` takes underscores, the digits of every script and its words in any case, `toDoubleOrNull`
a suffix and hexadecimal numerals.
-/

namespace DataCollectionLab.Form

open Lib

namespace Numeral

def digit (c : Char) : Option ℕ := if '0' ≤ c ∧ c ≤ '9' then some (c.toNat - 0x30) else none

def hexDigit (c : Char) : Option ℕ :=
  if '0' ≤ c ∧ c ≤ '9' then some (c.toNat - 0x30)
  else if 'a' ≤ c ∧ c ≤ 'f' then some (c.toNat - 0x57)
  else if 'A' ≤ c ∧ c ≤ 'F' then some (c.toNat - 0x37)
  else none

def digits (value : Char → Option ℕ) : List Char → List ℕ × List Char
  | [] => ([], [])
  | c :: rest =>
    match value c with
    | none => ([], c :: rest)
    | some n => (n :: (digits value rest).1, (digits value rest).2)

def sign : List Char → Bool × List Char
  | '-' :: rest => (true, rest)
  | '+' :: rest => (false, rest)
  | rest => (false, rest)

def signed (negative : Bool) (q : ℚ) : ℚ := if negative then -q else q

def natOfDigits (base : ℕ) (ds : List ℕ) : ℕ := ds.foldl (fun n d => n * base + d) 0

def significand (value : Char → Option ℕ) (cs : List Char) : Option (List ℕ × ℕ × List Char) :=
  let (whole, rest) := digits value cs
  let (fraction, rest) := match rest with
    | '.' :: rest => digits value rest
    | rest => ([], rest)
  if whole = [] ∧ fraction = [] then none else some (whole ++ fraction, fraction.length, rest)

def exponent (cs : List Char) : Option (ℤ × List Char) :=
  let (negative, rest) := sign cs
  let (ds, rest) := digits digit rest
  if ds = [] then none else some (if negative then -(natOfDigits 10 ds : ℤ) else natOfDigits 10 ds, rest)

def unsigned (cs : List Char) : Option (ℚ × List Char) := do
  let (ds, places, rest) ← significand digit cs
  let scale (e : ℤ) : ℚ := natOfDigits 10 ds * 10 ^ (e - places)
  match rest with
  | 'e' :: rest | 'E' :: rest => do
    let (e, rest) ← exponent rest
    return (scale e, rest)
  | rest => return (scale 0, rest)

def decimal (cs : List Char) : Option ℚ := do
  let (q, rest) ← unsigned (sign cs).2
  if rest = [] then some (signed (sign cs).1 q) else none

end Numeral

namespace Reference

/-- `str.isspace` of one character. -/
def isSpace (c : Char) : Bool :=
  let n := c.toNat
  (0x09 ≤ n && n ≤ 0x0D) || (0x1C ≤ n && n ≤ 0x20) || n = 0x85 || n = 0xA0 || n = 0x1680 ||
    (0x2000 ≤ n && n ≤ 0x200A) || n = 0x2028 || n = 0x2029 || n = 0x202F || n = 0x205F || n = 0x3000

def strip (cs : List Char) : List Char := ((cs.dropWhile isSpace).reverse.dropWhile isSpace).reverse

def zeros : List ℕ :=
  [0x30, 0x660, 0x6F0, 0x7C0, 0x966, 0x9E6, 0xA66, 0xAE6, 0xB66, 0xBE6, 0xC66, 0xCE6, 0xD66, 0xDE6, 0xE50, 0xED0,
    0xF20, 0x1040, 0x1090, 0x17E0, 0x1810, 0x1946, 0x19D0, 0x1A80, 0x1A90, 0x1B50, 0x1BB0, 0x1C40, 0x1C50, 0xA620,
    0xA8D0, 0xA900, 0xA9D0, 0xA9F0, 0xAA50, 0xABF0, 0xFF10, 0x104A0, 0x10D30, 0x11066, 0x110F0, 0x11136, 0x111D0,
    0x112F0, 0x11450, 0x114D0, 0x11650, 0x116C0, 0x11730, 0x118E0, 0x11950, 0x11C50, 0x11D50, 0x11DA0, 0x11F50,
    0x16A60, 0x16AC0, 0x16B50, 0x1D7CE, 0x1D7D8, 0x1D7E2, 0x1D7EC, 0x1D7F6, 0x1E140, 0x1E2F0, 0x1E4F0, 0x1E950,
    0x1FBF0]

def digitOf (n : ℕ) : Option ℕ := (zeros.find? fun zero => zero ≤ n && n < zero + 10).map (n - ·)

def toAscii (c : Char) : Char :=
  match digitOf c.toNat with
  | some n => Char.ofNat (0x30 + n)
  | none => c

def dropUnderscores (previous : Char) : List Char → Option (List Char)
  | [] => if previous = '_' then none else some []
  | c :: rest =>
    if c = '_' then if (Numeral.digit previous).isSome then dropUnderscores c rest else none
    else if previous = '_' ∧ (Numeral.digit c).isNone then none
    else (dropUnderscores c rest).map (c :: ·)

def small (c : Char) : Char := if 'A' ≤ c ∧ c ≤ 'Z' then Char.ofNat (c.toNat + 0x20) else c

def word (cs : List Char) : Option Binary64 :=
  let name := String.ofList ((Numeral.sign cs).2.map small)
  if name = "inf" ∨ name = "infinity" then some (.inf (Numeral.sign cs).1)
  else if name = "nan" then some .nan
  else none

/-- `float(text.strip())`; none where it raises `ValueError`. -/
def float (text : String) : Option Binary64 := do
  let cs ← dropUnderscores ' ' ((strip text.toList).map toAscii)
  match Numeral.decimal cs with
  | some q => return .round q
  | none => word cs

end Reference

namespace Evaluator

def isWhitespace (c : Char) : Bool := Reference.isSpace c && c.toNat ≠ 0x85

def trim (cs : List Char) : List Char := ((cs.dropWhile isWhitespace).reverse.dropWhile isWhitespace).reverse

def dropControls (cs : List Char) : List Char :=
  ((cs.dropWhile (·.toNat ≤ 0x20)).reverse.dropWhile (·.toNat ≤ 0x20)).reverse

def suffixed (cs : List Char) : Bool := cs ∈ [[], ['f'], ['F'], ['d'], ['D']]

/-- A hexadecimal numeral after its `0x`; the exponent counts twos and must be there. -/
def hexadecimal (cs : List Char) : Option (ℚ × List Char) := do
  let (ds, places, rest) ← Numeral.significand Numeral.hexDigit cs
  match rest with
  | 'p' :: rest | 'P' :: rest => do
    let (e, rest) ← Numeral.exponent rest
    return (Numeral.natOfDigits 16 ds * 2 ^ (e - 4 * places), rest)
  | _ => none

def magnitude (cs : List Char) : Option (ℚ × List Char) :=
  match cs with
  | '0' :: 'x' :: rest | '0' :: 'X' :: rest => hexadecimal rest
  | _ => Numeral.unsigned cs

def toDoubleOrNull (cs : List Char) : Option Binary64 :=
  let (negative, body) := Numeral.sign (dropControls cs)
  if body = ['N', 'a', 'N'] then some .nan
  else if body = "Infinity".toList then some (.inf negative)
  else do
    let (q, rest) ← magnitude body
    if suffixed rest then some (.round (Numeral.signed negative q)) else none

end Evaluator

end DataCollectionLab.Form
