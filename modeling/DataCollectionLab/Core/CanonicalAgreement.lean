import DataCollectionLab.Core.CanonicalJson

/-!
Both canonical writers give the same bytes: the characters are escaped alike, the doubles styled alike and the keys
sorted alike, and so is a value of any depth, by induction over it.
-/

namespace DataCollectionLab.Core.CanonicalJson

open Lib
open Lib.Utf16 (Units units units_cases isHighSurrogate isLowSurrogate)
open Crypto

theorem units_basic {c : Char} (basic : c.toNat < 0x10000) : units c = [unit c] := by
  unfold units
  rw [if_pos basic]
  rfl

theorem unit_toNat {c : Char} (basic : c.toNat < 0x10000) : (unit c).toNat = c.toNat := by
  unfold unit
  rw [UInt16.toNat_ofNat']
  omega

theorem writeChar_beyond {u : UInt16} (beyond : 128 ≤ u.toNat) : writeChar u = [u] := by
  have ne : ∀ c : Char, c.toNat < 128 → u ≠ unit c := by
    rintro c ascii rfl
    rw [unit_toNat (by omega)] at beyond
    omega
  have above : ¬ u < unit ' ' := by
    rw [UInt16.lt_iff_toNat_lt]
    have blank : (unit ' ').toNat = 32 := rfl
    omega
  unfold writeChar
  rw [if_neg (ne _ (by decide)), if_neg (ne _ (by decide)), if_neg (ne _ (by decide)), if_neg (ne _ (by decide)),
    if_neg (ne _ (by decide)), if_neg (ne _ (by decide)), if_neg (ne _ (by decide)), if_neg above]

theorem escape_beyond {c : Char} (beyond : 128 ≤ c.toNat) : escape c = [c] := by
  have unnamed : escapeDct.lookup c = none := by
    refine List.lookup_eq_none_iff.mpr fun pair member => bne_iff_ne.mpr ?_
    have ascii : ∀ pair ∈ escapeDct, pair.1.toNat < 128 := by decide
    rintro rfl
    have bound := ascii pair member
    omega
  unfold escape
  rw [unnamed]
  dsimp only
  rw [if_neg (by omega)]

theorem writeChar_units (c : Char) : (units c).flatMap writeChar = Utf16.encode (escape c) := by
  by_cases ascii : c.toNat < 128
  · have each : ∀ n < 128, (units (Char.ofNat n)).flatMap writeChar = Utf16.encode (escape (Char.ofNat n)) := by decide +kernel
    have here := each c.toNat ascii
    rwa [Char.ofNat_toNat] at here
  · have beyond : 128 ≤ c.toNat := Nat.not_lt.mp ascii
    rw [escape_beyond beyond]
    rcases units_cases c with ⟨u, same, value, -⟩ | ⟨high, low, same, isHigh, isLow, -⟩
    · rw [Utf16.encode_cons, same, List.flatMap_singleton, writeChar_beyond (by omega)]
      rfl
    · have high' : 128 ≤ high.toNat := by
        simp only [isHighSurrogate, Bool.and_eq_true, decide_eq_true_eq] at isHigh
        omega
      have low' : 128 ≤ low.toNat := by
        simp only [isLowSurrogate, Bool.and_eq_true, decide_eq_true_eq] at isLow
        omega
      rw [Utf16.encode_cons, same, List.flatMap_cons, List.flatMap_singleton, writeChar_beyond high', writeChar_beyond low']
      rfl

theorem writeString_literal (text : String) : writeString (literal text) = Utf16.encode (encodeBasestring text) := by
  have escaped : (literal text).flatMap writeChar = Utf16.encode (text.toList.flatMap escape) := by
    unfold literal Utf16.encode
    rw [List.flatMap_assoc, List.flatMap_assoc]
    exact List.flatMap_congr fun c _ => writeChar_units c
  unfold writeString encodeBasestring
  rw [escaped, Utf16.encode_cons, Utf16.encode_append]
  rfl

variable {platform : Platform}

theorem formatDouble_eq {bits : UInt64} {t : List Char} (written : reprFloat platform.toDoubles bits = some t) :
    formatDouble platform bits = some t := by
  obtain ⟨finite, rfl⟩ := reprFloat_eq written
  unfold formatDouble unsigned
  rw [finite, Bool.not_true, if_neg Bool.false_ne_true]
  split
  · cases negative bits <;> rfl
  · rw [(platform.layout (magnitude bits)).significant_text, Option.bind_eq_bind, Option.bind_some]
    dsimp only
    rw [restyle_eq]
    rfl

theorem encode_ascii {text : List Char} (ascii : ∀ c ∈ text, c.toNat < 128) : Utf16.encode text = text.map unit := by
  induction text with
  | nil => rfl
  | cons c text ih =>
    have here := ascii c List.mem_cons_self
    rw [Utf16.encode_cons, units_basic (by omega), ih fun c member => ascii c (List.mem_cons_of_mem _ member)]
    rfl

theorem digit_unit {c : Char} (digit : c.isDigit = true) :
    c.toNat < 128 ∧ unit c ≠ unit '-' ∧ (unit '0' ≤ unit c && unit c ≤ unit '9') = true := by
  have small : c.toNat < 58 := by
    rw [Char.isDigit, Bool.and_eq_true, decide_eq_true_eq, decide_eq_true_eq] at digit
    have bound := UInt32.le_iff_toNat_le.mp digit.2
    have nine : ('9'.val).toNat = 57 := rfl
    have value : c.val.toNat = c.toNat := rfl
    omega
  have each : ∀ n < 58, (Char.ofNat n).isDigit = true →
      unit (Char.ofNat n) ≠ unit '-' ∧ (unit '0' ≤ unit (Char.ofNat n) && unit (Char.ofNat n) ≤ unit '9') = true := by
    decide +kernel
  have here := each c.toNat small
  rw [Char.ofNat_toNat] at here
  exact ⟨by omega, here digit⟩

theorem intPattern_digits {digits : List Char} (decimal : ∀ c ∈ digits, c.isDigit = true) (nonempty : digits ≠ []) :
    intPattern (Utf16.encode digits) = true ∧ intPattern (Utf16.encode ('-' :: digits)) = true := by
  have text := encode_ascii fun c member => (digit_unit (decimal c member)).1
  have all : (digits.map unit).all (fun ch => unit '0' ≤ ch && ch ≤ unit '9') = true := by
    rw [List.all_map]
    exact List.all_eq_true.mpr fun c member => (digit_unit (decimal c member)).2.2
  have filled : (digits.map unit).isEmpty = false := by
    rw [List.isEmpty_map, List.isEmpty_eq_false_iff]
    exact nonempty
  have unsigned : (digits.map unit).head? ≠ some (unit '-') := by
    cases digits with
    | nil => exact absurd rfl nonempty
    | cons c rest =>
      intro minus
      exact (digit_unit (decimal c List.mem_cons_self)).2.1 (Option.some.inj minus)
  constructor
  · unfold intPattern
    dsimp only
    rw [text, if_neg unsigned, filled, all]
    rfl
  · unfold intPattern
    have signed : Utf16.encode ('-' :: digits) = unit '-' :: digits.map unit := by
      rw [Utf16.encode_cons, text]
      rfl
    dsimp only
    rw [signed, List.head?_cons, if_pos rfl, List.tail_cons, filled, all]
    rfl

theorem intPattern_int (n : Int) : intPattern (literal (toString n)) = true := by
  have digits : ∀ m : ℕ, ∀ c ∈ Nat.toDigits 10 m, c.isDigit = true := fun m c member =>
    Nat.isDigit_of_mem_toDigits (by decide) (by decide) member
  unfold literal
  cases n with
  | ofNat m =>
    have text : (toString (Int.ofNat m)).toList = Nat.toDigits 10 m := Nat.toList_repr
    rw [text]
    exact (intPattern_digits (digits m) Nat.toDigits_ne_nil).1
  | negSucc m =>
    have text : (toString (Int.negSucc m)).toList = '-' :: Nat.toDigits 10 (m + 1) := by
      show ("-" ++ Nat.repr (m + 1)).toList = _
      rw [String.toList_append, Nat.toList_repr]
      rfl
    rw [text]
    exact (intPattern_digits (digits (m + 1)) Nat.toDigits_ne_nil).2

theorem codePointAt_encode (c : Char) (rest : List Char) :
    ∃ u tail, Utf16.encode (c :: rest) = u :: tail ∧ codePointAt u tail = c.toNat ∧
      tail.drop (if 0xFFFF < c.toNat then 1 else 0) = Utf16.encode rest := by
  rw [Utf16.encode_cons]
  rcases units_cases c with ⟨u, same, value, basic, notHigh, -⟩ | ⟨high, low, same, isHigh, isLow, beyond, value⟩
  · refine ⟨u, Utf16.encode rest, by rw [same]; rfl, ?_, ?_⟩
    · cases Utf16.encode rest with
      | nil => exact value
      | cons low tail => rw [codePointAt, notHigh, Bool.false_and, if_neg Bool.false_ne_true, value]
    · rw [if_neg (by omega), List.drop_zero]
  · refine ⟨high, low :: Utf16.encode rest, by rw [same]; rfl, ?_, ?_⟩
    · rw [codePointAt, isHigh, isLow, Bool.and_self, if_pos rfl, value]
      omega
    · rw [if_pos (by omega), List.drop_one, List.tail_cons]

theorem compareCodePoints_encode (s t : List Char) :
    (compareCodePoints (Utf16.encode s) (Utf16.encode t)).isLE = true ↔ ¬ List.Lex (· < ·) t s := by
  induction s generalizing t with
  | nil =>
    refine iff_of_true ?_ List.not_lex_nil
    rw [compareCodePoints.eq_def]
    exact Nat.isLE_compare.mpr (Nat.zero_le _)
  | cons c s ih =>
    obtain ⟨u, tail, begun, point, rest⟩ := codePointAt_encode c s
    cases t with
    | nil =>
      refine iff_of_false ?_ (not_not.mpr .nil)
      rw [begun, compareCodePoints.eq_def]
      exact fun le => absurd (Nat.isLE_compare.mp le) (Nat.not_succ_le_zero _)
    | cons d t =>
      obtain ⟨u', tail', begun', point', rest'⟩ := codePointAt_encode d t
      rw [begun, begun', compareCodePoints, point, point', rest, rest', List.cons_lex_cons_iff]
      split
      · rename_i differ
        have other : d ≠ c := fun same => differ (congrArg Char.toNat same).symm
        have order : d < c ↔ d.toNat < c.toNat := Char.lt_def.trans UInt32.lt_iff_toNat_lt
        rw [Nat.isLE_compare, order]
        constructor
        · rintro le (below | ⟨same, -⟩)
          · exact absurd below (Nat.not_lt.mpr le)
          · exact other same
        · exact fun above => Nat.not_lt.mp fun below => above (.inl below)
      · rename_i equal
        have same : c = d := Char.toNat_inj.mp (not_not.mp equal)
        subst same
        rw [ih]
        constructor
        · rintro above (below | ⟨-, within⟩)
          · exact absurd below (lt_irrefl c)
          · exact above within
        · exact fun above within => above (.inr ⟨rfl, within⟩)

theorem compareCodePoints_literal (a b : String) : (compareCodePoints (literal a) (literal b)).isLE = true ↔ a ≤ b :=
  compareCodePoints_encode a.toList b.toList

theorem literal_injective {a b : String} (same : literal a = literal b) : a = b :=
  String.toList_inj.mp (Utf16.encode_injective same)

def inUnits (w : String × List Char) : Units × Units := (literal w.1, Utf16.encode w.2)

theorem sortedKeys_inUnits (written : List (String × List Char)) :
    sortedKeys ((written.map inUnits).map Prod.fst) = (sortKeys written).map fun w => literal w.1 := by
  unfold sortedKeys sortKeys
  rw [List.map_map, List.map_insertionSort (fun a b => a.1 ≤ b.1) (fun a b => (compareCodePoints a b).isLE = true)
    (fun w : String × List Char => literal w.1) written fun a _ b _ => (compareCodePoints_literal a.1 b.1).symm]
  rfl

theorem sortKeys_perm {written written' : List (String × List Char)} (perm : written.Perm written')
    (distinct : (written.map Prod.fst).Nodup) : sortKeys written = sortKeys written' := by
  have distinct' : (written'.map Prod.fst).Nodup := (perm.map Prod.fst).nodup_iff.mp distinct
  have total : Std.Total fun a b : String × List Char => a.1 ≤ b.1 := ⟨fun a b => le_total a.1 b.1⟩
  have trans : IsTrans (String × List Char) fun a b => a.1 ≤ b.1 := ⟨fun a b c => le_trans⟩
  refine insertionSort_eq_of_mem_iff _ distinct.of_map distinct'.of_map ?_ fun _ => perm.mem_iff
  intro a b left right le ge
  exact List.inj_on_of_nodup_map distinct left (perm.mem_iff.mpr right) (le_antisymm le ge)

theorem writeAll_eq {items : List JsonElement} {texts : List (List Char)}
    (each : List.Forall₂ (fun item t => write platform item = some (Utf16.encode t)) items texts) :
    writeAll platform items = some (texts.map Utf16.encode) := by
  induction each with
  | nil => rfl
  | cons here _ ih =>
    rw [writeAll, here, ih]
    rfl

theorem writeEntries_eq {entries : List (Units × JsonElement)} {written : List (String × List Char)}
    (each : List.Forall₂ (fun entry w => entry.1 = literal w.1 ∧ write platform entry.2 = some (Utf16.encode w.2)) entries
      written) : writeEntries platform entries = some (written.map inUnits) := by
  induction each with
  | nil => rfl
  | @cons entry w _ _ here _ ih =>
    obtain ⟨key, item⟩ := entry
    obtain ⟨rfl, text⟩ := here
    rw [writeEntries, text, ih]
    rfl

theorem field_inUnits {written : List (String × List Char)} (distinct : (written.map Prod.fst).Nodup)
    {w : String × List Char} (member : w ∈ written) :
    (((written.map inUnits).lookup (literal w.1)).map fun text => writeString (literal w.1) ++ unit ':' :: text) =
      some (Utf16.encode (field w)) := by
  have keys : ((written.map inUnits).map Prod.fst).Nodup := by
    rw [List.map_map]
    have same : Prod.fst ∘ inUnits = literal ∘ Prod.fst := rfl
    rw [same, ← List.map_map]
    exact distinct.map fun _ _ => literal_injective
  have found : (written.map inUnits).lookup (literal w.1) = some (Utf16.encode w.2) :=
    lookup_of_mem keys (List.mem_map_of_mem member)
  rw [found, Option.map_some, writeString_literal]
  unfold field
  rw [Utf16.encode_append, Utf16.encode_cons]
  rfl

theorem bracket_inUnits (opening closing : Char) (basic : opening.toNat < 0x10000) (basic' : closing.toNat < 0x10000)
    (texts : List (List Char)) :
    unit opening :: (joined (unit ',') (texts.map Utf16.encode) ++ [unit closing]) =
      Utf16.encode (bracket opening closing texts) := by
  have inside : Utf16.encode (joined ',' texts) = joined (unit ',') (texts.map Utf16.encode) :=
    joined_flatMap units ',' (unit ',') rfl texts
  unfold bracket
  rw [Utf16.encode_cons, Utf16.encode_append, inside, Utf16.encode_cons, units_basic basic, units_basic basic']
  rfl

theorem write_carried (v : Json) :
    ∀ t, dumps platform.toDoubles v = some t → ∀ element, Carries platform element v →
      write platform element = some (Utf16.encode t) := by
  induction v using json_induction with
  | null =>
    intro t written element carried
    cases carried
    rw [dumps, Option.some.injEq] at written
    rw [write, ← written]
    rfl
  | bool b =>
    intro t written element carried
    cases carried
    rw [dumps, Option.some.injEq] at written
    rw [write, ← written]
    cases b <;> rfl
  | int n =>
    intro t written element carried
    cases carried
    rw [dumps, Option.some.injEq] at written
    rw [write, writePrimitive, if_neg Bool.false_ne_true, intPattern_int, if_pos rfl, ite_self, ← written]
    rfl
  | float bits =>
    intro t written element carried
    cases carried with
    | float reads notInt notTrue notFalse =>
      rw [dumps] at written
      rw [write, writePrimitive, if_neg Bool.false_ne_true, if_neg (not_or.mpr ⟨notTrue, notFalse⟩), notInt,
        if_neg Bool.false_ne_true, reads, Option.bind_eq_bind, Option.bind_some, formatDouble_eq written]
      rfl
  | str text =>
    intro t written element carried
    cases carried
    rw [dumps, Option.some.injEq] at written
    rw [write, writePrimitive, if_pos rfl, writeString_literal, ← written]
  | arr values ih =>
    intro t written element carried
    cases carried with
    | @array items _ each =>
      rw [dumps] at written
      obtain ⟨texts, all, rfl⟩ := Option.map_eq_some_iff.mp written
      have items_written : List.Forall₂ (fun item t => write platform item = some (Utf16.encode t)) items texts :=
        forall₂_comp each (dumpsAll_eq all) fun v member item t holds text => ih v member t text item holds
      rw [write, writeAll_eq items_written, Option.map_some, bracket_inUnits '[' ']' (by decide) (by decide)]
  | obj fields ih =>
    intro t written element carried
    cases carried with
    | @object entries _ ordered perm distinct keys values =>
      rw [dumps] at written
      obtain ⟨texts, all, rfl⟩ := Option.map_eq_some_iff.mp written
      obtain ⟨texts', each, perm'⟩ := List.perm_comp_forall₂ perm.symm (dumpsFields_eq all)
      have held : List.Forall₂ (fun entry p => entry.1 = literal p.1 ∧ Carries platform entry.2 p.2) entries ordered :=
        forall₂_and.mpr ⟨forall₂_map_eq.mpr keys, List.forall₂_map_left_iff.mp (List.forall₂_map_right_iff.mp values)⟩
      have entries_written : List.Forall₂
          (fun entry w => entry.1 = literal w.1 ∧ write platform entry.2 = some (Utf16.encode w.2)) entries texts' := by
        refine forall₂_comp held each ?_
        rintro p member entry w ⟨key, holds⟩ ⟨key', text⟩
        have inside : p.2 ∈ fields.map Prod.snd := List.mem_map_of_mem (perm.mem_iff.mpr member)
        exact ⟨by rw [key, key'], ih p.2 inside w.2 text entry.2 holds⟩
      have same : entries.map Prod.fst = (texts'.map inUnits).map Prod.fst := by
        rw [List.map_map]
        exact forall₂_map_eq.mp (forall₂_and.mp entries_written).1
      have apart : (texts'.map Prod.fst).Nodup := by
        rw [same, List.map_map] at distinct
        exact (List.map_map (f := Prod.fst) (g := literal) ▸ distinct : ((texts'.map Prod.fst).map literal).Nodup).of_map
      have fields_written : (sortedKeys (entries.map Prod.fst)).mapM (fun key =>
          ((texts'.map inUnits).lookup key).map fun text => writeString key ++ unit ':' :: text) =
            some (((sortKeys texts).map field).map Utf16.encode) := by
        rw [same, sortedKeys_inUnits, sortKeys_perm perm'.symm ((perm'.map Prod.fst).nodup_iff.mp apart), mapM_eq_some_iff,
          List.map_map, List.map_map, List.map_map]
        refine List.map_congr_left fun w member => ?_
        exact field_inUnits apart ((List.mem_insertionSort _).mp member)
      rw [write, writeEntries_eq entries_written, Option.bind_eq_bind, Option.bind_some, fields_written,
        Option.bind_eq_bind, Option.bind_some, bracket_inUnits '\x7b' '\x7d' (by decide) (by decide)]
      rfl

theorem encode_carried {v : Json} {element : JsonElement} {bytes : Bytes} (carried : Carries platform element v)
    (written : canonicalJson platform.toDoubles v = some bytes) : encode platform element = some bytes := by
  obtain ⟨t, dumped, rfl⟩ := Option.map_eq_some_iff.mp written
  unfold encode encodeToByteArray
  rw [write_carried v t dumped element carried, Option.map_some, Utf16.decode_encode]

/-! ### The values there are -/

theorem dumpsAll_total {doubles : Doubles} {items : List Json} (each : ∀ v ∈ items, ∃ t, dumps doubles v = some t) :
    ∃ texts, dumpsAll doubles items = some texts := by
  induction items with
  | nil => exact ⟨[], rfl⟩
  | cons v rest ih =>
    obtain ⟨⟨t, here⟩, others⟩ := List.forall_mem_cons.mp each
    obtain ⟨ts, all⟩ := ih others
    exact ⟨t :: ts, by rw [dumpsAll, here, all]; rfl⟩

theorem dumpsFields_total {doubles : Doubles} {fields : List (String × Json)}
    (each : ∀ v ∈ fields.map Prod.snd, ∃ t, dumps doubles v = some t) : ∃ written, dumpsFields doubles fields = some written := by
  induction fields with
  | nil => exact ⟨[], rfl⟩
  | cons p rest ih =>
    obtain ⟨⟨t, here⟩, others⟩ := List.forall_mem_cons.mp each
    obtain ⟨ws, all⟩ := ih others
    exact ⟨(p.1, t) :: ws, by rw [dumpsFields, here, all]; rfl⟩

theorem dumps_valid {doubles : Doubles} {v : Json} (valid : Valid v) : ∃ t, dumps doubles v = some t := by
  induction v using json_induction with
  | null | bool | int | str => exact ⟨_, rfl⟩
  | float bits =>
    cases valid with
    | float finite =>
      rw [dumps, reprFloat, if_pos finite]
      exact ⟨_, rfl⟩
  | arr items ih =>
    cases valid with
    | arr each =>
      obtain ⟨texts, all⟩ := dumpsAll_total fun v member => ih v member (each v member)
      exact ⟨_, by rw [dumps, all, Option.map_some]⟩
  | obj fields ih =>
    cases valid with
    | obj distinct each =>
      obtain ⟨written, all⟩ := dumpsFields_total fun v member => ih v member (each v member)
      exact ⟨_, by rw [dumps, all, Option.map_some]⟩

theorem toText_pointed (bits : UInt64) : '.' ∈ platform.toText bits := by
  unfold Printer.toText
  refine List.mem_append_right _ ?_
  split
  · decide
  · unfold Layout.text Layout.mantissa
    refine List.mem_append_left _ ?_
    cases point : (platform.layout (magnitude bits)).point with
    | none => exact absurd point (platform.pointed _)
    | some p => exact List.mem_append_right _ List.mem_cons_self

theorem not_int_of_pointed {text : List Char} (pointed : '.' ∈ text) :
    intPattern (Utf16.encode text) = false ∧ Utf16.encode text ≠ literal "true" ∧ Utf16.encode text ≠ literal "false" := by
  have inside : unit '.' ∈ Utf16.encode text := List.mem_flatMap.mpr ⟨'.', pointed, List.mem_cons_self⟩
  refine ⟨?_, ?_, ?_⟩
  · have left : unit '.' ∈ (if (Utf16.encode text).head? = some (unit '-') then (Utf16.encode text).tail
        else Utf16.encode text) := by
      split
      · rename_i minus
        cases whole : Utf16.encode text with
        | nil =>
          rw [whole] at inside
          cases inside
        | cons first rest =>
          rw [whole] at inside minus
          rcases List.mem_cons.mp inside with same | later
          · rw [List.head?_cons, ← same] at minus
            exact absurd (Option.some.inj minus) (by decide)
          · exact later
      · exact inside
    unfold intPattern
    dsimp only
    rw [Bool.and_eq_false_iff]
    refine .inr (List.all_eq_false.mpr ⟨unit '.', left, by decide⟩)
  · intro same
    rw [same] at inside
    revert inside
    decide
  · intro same
    rw [same] at inside
    revert inside
    decide

theorem elementsOf_carried {items : List Json} (each : ∀ v ∈ items, Carries platform (elementOf platform v) v) :
    List.Forall₂ (Carries platform) (elementsOf platform items) items := by
  induction items with
  | nil => exact .nil
  | cons v rest ih =>
    obtain ⟨here, others⟩ := List.forall_mem_cons.mp each
    exact .cons here (ih others)

theorem entriesOf_keys (fields : List (String × Json)) :
    (entriesOf platform fields).map Prod.fst = fields.map fun p => literal p.1 := by
  induction fields with
  | nil => rfl
  | cons p rest ih =>
    obtain ⟨key, v⟩ := p
    rw [entriesOf, List.map_cons, List.map_cons, ih]

theorem entriesOf_carried {fields : List (String × Json)}
    (each : ∀ v ∈ fields.map Prod.snd, Carries platform (elementOf platform v) v) :
    List.Forall₂ (Carries platform) ((entriesOf platform fields).map Prod.snd) (fields.map Prod.snd) := by
  induction fields with
  | nil => exact .nil
  | cons p rest ih =>
    obtain ⟨key, v⟩ := p
    obtain ⟨here, others⟩ := List.forall_mem_cons.mp each
    exact .cons here (ih others)

theorem carries_elementOf {v : Json} (valid : Valid v) : Carries platform (elementOf platform v) v := by
  induction v using json_induction with
  | null => exact .null
  | bool b => exact .bool b
  | int n => exact .int n
  | str text => exact .str text
  | float bits =>
    cases valid with
    | float finite =>
      obtain ⟨notInt, notTrue, notFalse⟩ := not_int_of_pointed (toText_pointed bits)
      exact .float (platform.reads bits finite) notInt notTrue notFalse
  | arr items ih =>
    cases valid with
    | arr each => exact .array (elementsOf_carried fun v member => ih v member (each v member))
  | obj fields ih =>
    cases valid with
    | obj distinct each =>
      have apart : ((entriesOf platform fields).map Prod.fst).Nodup := by
        have same : (fun p : String × Json => literal p.1) = literal ∘ Prod.fst := rfl
        rw [entriesOf_keys, same, ← List.map_map]
        exact distinct.map fun _ _ => literal_injective
      exact .object (.refl fields) apart (entriesOf_keys fields)
        (entriesOf_carried fun v member => ih v member (each v member))

def oneAndHalf : ℕ := 0x3FF8000000000000

def someShortest (m : ℕ) : Shortest :=
  if m = oneAndHalf then ⟨['1', '5'], 0, List.all_eq_true.mp rfl, by decide, by decide, by decide⟩
  else ⟨['1'], m, List.all_eq_true.mp rfl, by decide, by decide, by decide⟩

def someDoubles : Doubles where
  shortest := someShortest
  apart := by
    intro m m' _ _ _ _ same
    unfold someShortest at same
    split at same
    · split at same
      · omega
      · have digits : ['1', '5'] = ['1'] := congrArg Shortest.digits same
        exact absurd digits (by decide)
    · split at same
      · have digits : ['1'] = ['1', '5'] := congrArg Shortest.digits same
        exact absurd digits (by decide)
      · exact Int.ofNat_inj.mp (congrArg Shortest.exponent same)

def poweredLayout (s : Shortest) (m : ℕ) (exponent : s.exponent = m) : Layout s where
  before := 0
  after := 1
  point := some 1
  power := some ('E', (toString (m : ℤ)).toList)
  scale := m
  inside := by
    rintro p same
    rw [← Option.some.inj same]
    omega
  letter := by
    rintro x same
    rw [← Option.some.inj same]
    exact .inr rfl
  reads := by
    refine ⟨nofun, ?_⟩
    rintro x same
    rw [← Option.some.inj same]
    exact toInt_toString m
  placed := by
    rw [exponent, Option.getD_some]
    omega

theorem someShortest_oneAndHalf {m : ℕ} (here : m = oneAndHalf) :
    (someShortest m).digits = ['1', '5'] ∧ (someShortest m).exponent = 0 := by
  rw [someShortest, if_pos here]
  exact ⟨rfl, rfl⟩

theorem someShortest_other {m : ℕ} (other : m ≠ oneAndHalf) :
    (someShortest m).digits = ['1'] ∧ (someShortest m).exponent = m := by
  rw [someShortest, if_neg other]
  exact ⟨rfl, rfl⟩

def someLayout (m : ℕ) : Layout (someShortest m) :=
  if here : m = oneAndHalf then
    .fixed 0 0 1 (by rw [(someShortest_oneAndHalf here).1]; decide) (by rw [(someShortest_oneAndHalf here).2]; rfl)
  else poweredLayout _ m (someShortest_other here).2

def somePrinter : Printer where
  toDoubles := someDoubles
  layout := someLayout
  pointed := by
    intro m
    unfold someLayout
    split <;> exact Option.some_ne_none _

def readMagnitude (text : List Char) : Option ℕ :=
  if text = ['0', '.', '0'] then some 0
  else if text = ['1', '.', '5'] then some oneAndHalf
  else if text.take 4 = ['1', '.', '0', 'E'] then (toInt (text.drop 4)).map Int.toNat
  else none

def readDouble (content : Units) : Option UInt64 :=
  match Utf16.decode content with
  | '-' :: text => (readMagnitude text).map fun m => UInt64.ofNat (m + 2 ^ 63)
  | text => (readMagnitude text).map UInt64.ofNat

theorem someLayout_text (m : ℕ) : (someLayout m).text =
    if m = oneAndHalf then ['1', '.', '5'] else ['1', '.', '0', 'E'] ++ (toString (m : ℤ)).toList := by
  unfold someLayout
  split
  · rename_i here
    rw [Layout.fixed_text, (someShortest_oneAndHalf here).1]
    rfl
  · rename_i other
    unfold Layout.text Layout.mantissa Layout.all poweredLayout
    dsimp only
    rw [(someShortest_other other).1]
    rfl

theorem readMagnitude_text (m : ℕ) : readMagnitude (someLayout m).text = some m := by
  rw [someLayout_text]
  unfold readMagnitude
  split
  · rename_i here
    rw [here]
    rfl
  · have powered : (['1', '.', '0', 'E'] ++ (toString (m : ℤ)).toList).take 4 = ['1', '.', '0', 'E'] := rfl
    have rest : (['1', '.', '0', 'E'] ++ (toString (m : ℤ)).toList).drop 4 = (toString (m : ℤ)).toList := rfl
    rw [if_neg (by simp), if_neg (by simp), if_pos powered, rest, toInt_toString]
    rfl

def somePlatform : Platform where
  toPrinter := somePrinter
  toDouble := readDouble
  reads := by
    intro bits finite
    have bound := UInt64.toNat_lt bits
    have small := of_decide_eq_true finite
    have read : readMagnitude (if magnitude bits = 0 then ['0', '.', '0'] else (someLayout (magnitude bits)).text) =
        some (magnitude bits) := by
      split
      · rename_i zero
        rw [zero]
        rfl
      · exact readMagnitude_text _
    -- No text of a magnitude begins with the sign.
    have unsigned : ∀ rest, readMagnitude ('-' :: rest) = none := by
      intro rest
      unfold readMagnitude
      rw [if_neg (by simp), if_neg (by simp), if_neg (by simp)]
    unfold readDouble
    rw [Utf16.decode_encode]
    unfold Printer.toText
    cases sign : negative bits with
    | true =>
      have above := of_decide_eq_true sign
      show (readMagnitude (if magnitude bits = 0 then ['0', '.', '0'] else (someLayout (magnitude bits)).text)).map _ = _
      rw [read, Option.map_some]
      refine congrArg some (UInt64.toNat_inj.mp ?_)
      rw [UInt64.toNat_ofNat']
      unfold magnitude
      omega
    | false =>
      have below := of_decide_eq_false sign
      rw [if_neg Bool.false_ne_true, List.nil_append]
      split
      · rename_i rest same
        change (if magnitude bits = 0 then ['0', '.', '0'] else (someLayout (magnitude bits)).text) = '-' :: rest at same
        rw [same, unsigned] at read
        cases read
      · show (readMagnitude (if magnitude bits = 0 then ['0', '.', '0'] else (someLayout (magnitude bits)).text)).map _ = _
        rw [read, Option.map_some]
        refine congrArg some (UInt64.toNat_inj.mp ?_)
        rw [UInt64.toNat_ofNat']
        unfold magnitude
        omega

/-- Canonical JSON is one function, of every value there is, and the bytes settle the value. -/
theorem canonical (platform : Platform) :
    (∀ v, Valid v → ∃ bytes, canonicalJson platform.toDoubles v = some bytes ∧ Carries platform (elementOf platform v) v ∧
      ∀ element, Carries platform element v → encode platform element = some bytes) ∧
    ∀ a b bytes, canonicalJson platform.toDoubles a = some bytes → canonicalJson platform.toDoubles b = some bytes →
      Same a b := by
  refine ⟨fun v valid => ?_, fun a b bytes => same_of_canonicalJson⟩
  obtain ⟨t, dumped⟩ : ∃ t, dumps platform.toDoubles v = some t := dumps_valid valid
  have written : canonicalJson platform.toDoubles v = some (utf8 (String.ofList t)) := by
    unfold canonicalJson
    rw [dumped, Option.map_some]
  exact ⟨_, written, carries_elementOf valid, fun element carried => encode_carried carried written⟩

def someValue : Json :=
  .obj [("😀", .arr [.float 0x3FF8000000000000, .float 0x8000000000000000, .int (-7)]), ("\uFFFD", .str "a\n\"")]

theorem someValue_canonical :
    encode somePlatform (elementOf somePlatform someValue) = canonicalJson someDoubles someValue ∧
      dumps someDoubles someValue = some "\x7b\"\uFFFD\":\"a\\n\\\"\",\"😀\":[1.5,-0.0,-7]\x7d".toList := by
  refine ⟨?_, by decide +kernel⟩
  have valid : Valid someValue := by
    refine .obj (by decide) ?_
    refine List.forall_mem_cons.mpr ⟨.arr ?_, List.forall_mem_cons.mpr ⟨.str _, List.forall_mem_nil _⟩⟩
    refine List.forall_mem_cons.mpr ⟨.float (by decide +kernel), List.forall_mem_cons.mpr ⟨.float (by decide +kernel), ?_⟩⟩
    exact List.forall_mem_cons.mpr ⟨.int _, List.forall_mem_nil _⟩
  obtain ⟨bytes, written, carried, encoded⟩ := (canonical somePlatform).1 someValue valid
  rw [encoded _ carried]
  exact written.symm

end DataCollectionLab.Core.CanonicalJson
