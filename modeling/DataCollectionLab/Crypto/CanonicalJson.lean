import DataCollectionLab.Core.SyncCrypto
import DataCollectionLab.Crypto.Numbers
import DataCollectionLab.Lib.ReadBack
import Mathlib.Data.String.Basic

/-!
`canonical_json` of the envelope: `json.dumps` with sorted keys, no blanks, no escapes but the needed ones and no NaN,
as UTF-8. The bytes settle the value they were written from.
-/

namespace DataCollectionLab.Crypto

open Lib
open Core (utf8 utf8_injective)

/-- The shortest digits that read back as a double, by its magnitude's bits. -/
structure Doubles where
  shortest : ℕ → Shortest
  apart : ∀ m m', 0 < m → m < 0x7FF0000000000000 → 0 < m' → m' < 0x7FF0000000000000 → shortest m = shortest m' → m = m'

def magnitude (bits : UInt64) : ℕ := bits.toNat % 2 ^ 63

def negative (bits : UInt64) : Bool := 2 ^ 63 ≤ bits.toNat

def isFinite (bits : UInt64) : Bool := magnitude bits < 0x7FF0000000000000

/-- `ESCAPE_DCT`, of the characters it names. -/
def escapeDct : List (Char × List Char) :=
  [('\\', ['\\', '\\']), ('"', ['\\', '"']), (Char.ofNat 8, ['\\', 'b']), (Char.ofNat 12, ['\\', 'f']), ('\n', ['\\', 'n']),
    ('\r', ['\\', 'r']), ('\t', ['\\', 't'])]

/-- `{0:04x}` -/
def hex4 (n : ℕ) : List Char := (Nat.toDigits 16 n).leftpad 4 '0'

def escape (c : Char) : List Char :=
  match escapeDct.lookup c with
  | some escaped => escaped
  | none => if c.toNat < 0x20 then '\\' :: 'u' :: hex4 c.toNat else [c]

/-- `py_encode_basestring` -/
def encodeBasestring (text : String) : List Char := '"' :: (text.toList.flatMap escape ++ ['"'])

def bracket (opening closing : Char) (texts : List (List Char)) : List Char := opening :: (joined ',' texts ++ [closing])

def field (written : String × List Char) : List Char := encodeBasestring written.1 ++ ':' :: written.2

def sortKeys (written : List (String × List Char)) : List (String × List Char) :=
  written.insertionSort fun a b => a.1 ≤ b.1

section Dumps

variable (doubles : Doubles)

/-- `float.__repr__`; `allow_nan=False` refuses the others. -/
def reprFloat (bits : UInt64) : Option (List Char) :=
  if isFinite bits then
    some ((if negative bits then ['-'] else []) ++
      if magnitude bits = 0 then ['0', '.', '0'] else floatRepr (doubles.shortest (magnitude bits)))
  else none

mutual

def dumps : Json → Option (List Char)
  | .null => some "null".toList
  | .bool b => some (if b then "true".toList else "false".toList)
  | .int n => some (toString n).toList
  | .float bits => reprFloat doubles bits
  | .str text => some (encodeBasestring text)
  | .arr items => (dumpsAll items).map (bracket '[' ']')
  | .obj fields => (dumpsFields fields).map fun written => bracket '\x7b' '\x7d' ((sortKeys written).map field)

def dumpsAll : List Json → Option (List (List Char))
  | [] => some []
  | v :: rest => do return (← dumps v) :: (← dumpsAll rest)

def dumpsFields : List (String × Json) → Option (List (String × List Char))
  | [] => some []
  | (key, v) :: rest => do return (key, ← dumps v) :: (← dumpsFields rest)

end

def canonicalJson (v : Json) : Option Bytes := (dumps doubles v).map fun text => utf8 (String.ofList text)

end Dumps

inductive Same : Json → Json → Prop
  | null : Same .null .null
  | bool (b : Bool) : Same (.bool b) (.bool b)
  | int (n : Int) : Same (.int n) (.int n)
  | float (bits : UInt64) : Same (.float bits) (.float bits)
  | str (text : String) : Same (.str text) (.str text)
  | arr {items items' : List Json} : List.Forall₂ Same items items' → Same (.arr items) (.arr items')
  | obj {fields fields' ordered ordered' : List (String × Json)} : fields.Perm ordered → fields'.Perm ordered' →
      ordered.map Prod.fst = ordered'.map Prod.fst → List.Forall₂ Same (ordered.map Prod.snd) (ordered'.map Prod.snd) →
      Same (.obj fields) (.obj fields')

inductive Valid : Json → Prop
  | null : Valid .null
  | bool (b : Bool) : Valid (.bool b)
  | int (n : Int) : Valid (.int n)
  | float {bits : UInt64} : isFinite bits = true → Valid (.float bits)
  | str (text : String) : Valid (.str text)
  | arr {items : List Json} : (∀ v ∈ items, Valid v) → Valid (.arr items)
  | obj {fields : List (String × Json)} : (fields.map Prod.fst).Nodup → (∀ v ∈ fields.map Prod.snd, Valid v) →
      Valid (.obj fields)

section Induction

variable {P : Json → Prop} (null : P .null) (bool : ∀ b, P (.bool b)) (int : ∀ n, P (.int n)) (float : ∀ bits, P (.float bits))
  (str : ∀ text, P (.str text)) (arr : ∀ items, (∀ v ∈ items, P v) → P (.arr items))
  (obj : ∀ fields : List (String × Json), (∀ v ∈ fields.map Prod.snd, P v) → P (.obj fields))

include null bool int float str arr obj

mutual

theorem json_induction : ∀ v, P v
  | .null => null
  | .bool b => bool b
  | .int n => int n
  | .float bits => float bits
  | .str text => str text
  | .arr items => arr items (json_induction_items items)
  | .obj fields => obj fields (json_induction_fields fields)

theorem json_induction_items : ∀ items : List Json, ∀ v ∈ items, P v
  | [] => nofun
  | v :: rest => List.forall_mem_cons.mpr ⟨json_induction v, json_induction_items rest⟩

theorem json_induction_fields : ∀ fields : List (String × Json), ∀ v ∈ fields.map Prod.snd, P v
  | [] => nofun
  | (_, v) :: rest => List.forall_mem_cons.mpr ⟨json_induction v, json_induction_fields rest⟩

end

end Induction

end DataCollectionLab.Crypto
