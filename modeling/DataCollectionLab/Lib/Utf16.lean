import Mathlib.Data.List.Basic
import Mathlib.Tactic.Common

/-!
Texts as UTF-16 units: one for a character of the basic plane, a surrogate pair for any other.
-/

namespace DataCollectionLab.Lib.Utf16

abbrev Units := List UInt16

def units (c : Char) : Units :=
  if c.toNat < 0x10000 then [UInt16.ofNat c.toNat]
  else [UInt16.ofNat (0xD800 + (c.toNat - 0x10000) / 0x400), UInt16.ofNat (0xDC00 + (c.toNat - 0x10000) % 0x400)]

def encode (text : List Char) : Units := text.flatMap units

def isHighSurrogate (u : UInt16) : Bool := 0xD800 ≤ u.toNat && u.toNat < 0xDC00

def isLowSurrogate (u : UInt16) : Bool := 0xDC00 ≤ u.toNat && u.toNat < 0xE000

def lone (u : UInt16) : Char := if isHighSurrogate u || isLowSurrogate u then '?' else Char.ofNat u.toNat

def decode : Units → List Char
  | [] => []
  | [u] => [lone u]
  | high :: low :: rest =>
    if isHighSurrogate high && isLowSurrogate low then
      Char.ofNat (0x10000 + (high.toNat - 0xD800) * 0x400 + (low.toNat - 0xDC00)) :: decode rest
    else lone high :: decode (low :: rest)

theorem scalar (c : Char) : c.toNat < 0xD800 ∨ (0xDFFF < c.toNat ∧ c.toNat < 0x110000) := by
  have valid : c.val.toNat.isValidChar := c.valid
  exact valid

theorem units_cases (c : Char) :
    (∃ u, units c = [u] ∧ u.toNat = c.toNat ∧ c.toNat < 0x10000 ∧ isHighSurrogate u = false ∧ isLowSurrogate u = false) ∨
    ∃ high low, units c = [high, low] ∧ isHighSurrogate high = true ∧ isLowSurrogate low = true ∧ 0x10000 ≤ c.toNat ∧
      c.toNat = 0x10000 + (high.toNat - 0xD800) * 0x400 + (low.toNat - 0xDC00) := by
  have valid := scalar c
  unfold units
  split
  · rename_i basic
    refine .inl ⟨_, rfl, ?_⟩
    have same : (UInt16.ofNat c.toNat).toNat = c.toNat := by
      rw [UInt16.toNat_ofNat']
      omega
    refine ⟨same, basic, ?_, ?_⟩
    · unfold isHighSurrogate
      rw [same]
      simp
      omega
    · unfold isLowSurrogate
      rw [same]
      simp
      omega
  · rename_i beyond
    have high : (UInt16.ofNat (0xD800 + (c.toNat - 0x10000) / 0x400)).toNat = 0xD800 + (c.toNat - 0x10000) / 0x400 := by
      rw [UInt16.toNat_ofNat']
      omega
    have low : (UInt16.ofNat (0xDC00 + (c.toNat - 0x10000) % 0x400)).toNat = 0xDC00 + (c.toNat - 0x10000) % 0x400 := by
      rw [UInt16.toNat_ofNat']
      omega
    refine .inr ⟨_, _, rfl, ?_, ?_, by omega, ?_⟩
    · unfold isHighSurrogate
      rw [high]
      simp
      omega
    · unfold isLowSurrogate
      rw [low]
      simp
      omega
    · rw [high, low]
      omega

theorem decode_units (c : Char) (rest : Units) : decode (units c ++ rest) = c :: decode rest := by
  rcases units_cases c with ⟨u, same, value, -, notHigh, notLow⟩ | ⟨high, low, same, isHigh, isLow, -, value⟩
  · have single : lone u = c := by
      unfold lone
      rw [notHigh, notLow, value]
      exact Char.ofNat_toNat c
    rw [same, List.singleton_append]
    cases rest with
    | nil => exact congrArg (fun c => [c]) single
    | cons next rest => rw [decode, notHigh, Bool.false_and, if_neg Bool.false_ne_true, single]
  · rw [same, List.cons_append, List.singleton_append, decode, isHigh, isLow, Bool.and_self, if_pos rfl, ← value,
      Char.ofNat_toNat]

theorem encode_cons (c : Char) (text : List Char) : encode (c :: text) = units c ++ encode text := List.flatMap_cons

theorem encode_append (first rest : List Char) : encode (first ++ rest) = encode first ++ encode rest := by
  unfold encode
  exact List.flatMap_append

theorem decode_encode (text : List Char) : decode (encode text) = text := by
  induction text with
  | nil => rfl
  | cons c text ih => rw [encode_cons, decode_units, ih]

theorem encode_injective {a b : List Char} (same : encode a = encode b) : a = b := by
  rw [← decode_encode a, ← decode_encode b, same]

end DataCollectionLab.Lib.Utf16
