import DataCollectionLab.Form.Agreement
import DataCollectionLab.Form.Dates

/-!
The text, cast and date functions of the two engines, side by side.
-/

namespace DataCollectionLab.Form

open Lib

def Value.Plain : Value → Prop
  | .null | .text _ | .bool _ => True
  | .integer n => inRange n = true
  | _ => False

section Texts

def Basic (s : String) : Prop := ∀ c ∈ s.toList, c.toNat < 0x10000

theorem utf16_length (cs : List Char) : cs.length ≤ (Evaluator.utf16 cs).length ∧
    ((Evaluator.utf16 cs).length = cs.length ↔ ∀ c ∈ cs, c.toNat < 0x10000) := by
  induction cs with
  | nil => simp [Evaluator.utf16]
  | cons c cs ih =>
    have whole : Evaluator.utf16 (c :: cs) = Evaluator.utf16Units c ++ Evaluator.utf16 cs := rfl
    have here : (Evaluator.utf16Units c).length = if c.toNat < 0x10000 then 1 else 2 := by
      unfold Evaluator.utf16Units
      split <;> rfl
    rw [whole, List.length_append, here, List.length_cons, List.forall_mem_cons, ← ih.2]
    split <;> omega

/-- Where `len` counts the same. -/
def LenMeets : Value → Prop
  | .text s => Basic s
  | _ => True

theorem len_iff (a : Value) : Reference.len a = Evaluator.len a ↔ LenMeets a := by
  cases a with
  | text s =>
    show Value.integer _ = Value.integer _ ↔ Basic s
    rw [Value.integer.injEq, Nat.cast_inj, eq_comm]
    exact (utf16_length s.toList).2
  | _ => exact ⟨fun _ => trivial, fun _ => rfl⟩

def unitsOf : Value → Option (List Nat)
  | .text s => some (Evaluator.utf16 s.toList)
  | _ => none

def offset (cs : List Char) (k : ℕ) : ℕ := (Evaluator.utf16 (cs.take k)).length

def cut (units : List Nat) (first last : ℕ) : List Nat := (units.take last).drop first

theorem utf16_append (xs ys : List Char) :
    Evaluator.utf16 (xs ++ ys) = Evaluator.utf16 xs ++ Evaluator.utf16 ys := by
  simp [Evaluator.utf16]

theorem take_offset (cs : List Char) (k : ℕ) :
    (Evaluator.utf16 cs).take (offset cs k) = Evaluator.utf16 (cs.take k) := by
  have whole : Evaluator.utf16 cs = Evaluator.utf16 (cs.take k) ++ Evaluator.utf16 (cs.drop k) := by
    rw [← utf16_append, List.take_append_drop]
  rw [whole, offset, List.take_left]

theorem offset_mono (cs : List Char) {j k : ℕ} (le : j ≤ k) : offset cs j ≤ offset cs k := by
  have split : cs.take k = cs.take j ++ (cs.take k).drop j := by
    conv_lhs => rw [← List.take_append_drop j (cs.take k)]
    rw [List.take_take, min_eq_left le]
  unfold offset
  rw [split, utf16_append, List.length_append]
  omega

theorem utf16_part (cs : List Char) (first last : ℕ) :
    Evaluator.utf16 ((cs.take last).drop first) = cut (Evaluator.utf16 cs) (offset cs first) (offset cs last) := by
  unfold cut
  rw [take_offset]
  rcases le_total first last with le | ge
  · have split : cs.take last = cs.take first ++ (cs.take last).drop first := by
      conv_lhs => rw [← List.take_append_drop first (cs.take last)]
      rw [List.take_take, min_eq_left le]
    conv_rhs => rw [split, utf16_append]
    rw [offset, List.drop_left]
  · have none : (cs.take last).drop first = [] := by
      rw [List.drop_eq_nil_iff, List.length_take]
      omega
    have long : (Evaluator.utf16 (cs.take last)).length ≤ offset cs first := offset_mono cs ge
    rw [none, List.drop_eq_nil_of_le long]
    rfl

/-- The bounds of `substr`, in units: those of the reference engine, which count characters and take a start
below zero from the end, and those of the device. -/
def referenceStart (cs : List Char) (start : ℤ) : ℕ := offset cs (Reference.sliceIndex cs.length start)

def deviceStart (cs : List Char) (start : ℤ) : ℤ :=
  Evaluator.coerceIn 0 (Evaluator.utf16 cs).length (Evaluator.toInt start)

def deviceStop (cs : List Char) (start length : ℤ) : ℤ :=
  Evaluator.coerceIn (deviceStart cs start) (Evaluator.utf16 cs).length
    (Evaluator.toInt (deviceStart cs start + Evaluator.toInt length))

/-- Where the two ranges of `substr` cover the same units. -/
def SubstrMeets : List Value → Prop
  | [.text s, .integer start] | [.text s, .integer start, .null] =>
    (Evaluator.utf16 s.toList).drop (referenceStart s.toList start) =
      (Evaluator.utf16 s.toList).drop (deviceStart s.toList start).toNat
  | [.text s, .integer start, .integer length] =>
    cut (Evaluator.utf16 s.toList) (referenceStart s.toList start) (referenceStart s.toList (start + length)) =
      cut (Evaluator.utf16 s.toList) (deviceStart s.toList start).toNat (deviceStop s.toList start length).toNat
  | _ => True

theorem utf16_drop (cs : List Char) (k : ℕ) :
    Evaluator.utf16 (cs.drop k) = (Evaluator.utf16 cs).drop (offset cs k) := by
  have whole : Evaluator.utf16 cs = Evaluator.utf16 (cs.take k) ++ Evaluator.utf16 (cs.drop k) := by
    rw [← utf16_append, List.take_append_drop]
  rw [whole, offset, List.drop_left]

theorem substr_rest (s : String) (start : ℤ) :
    unitsOf (.text (String.ofList (Reference.slice s.toList start none))) =
        some ((Evaluator.utf16 s.toList).drop (deviceStart s.toList start).toNat) ↔
      (Evaluator.utf16 s.toList).drop (referenceStart s.toList start) =
        (Evaluator.utf16 s.toList).drop (deviceStart s.toList start).toNat := by
  simp only [unitsOf, Reference.slice, String.toList_ofList, List.take_length, Option.some.injEq, utf16_drop,
    referenceStart]

theorem substr_part (s : String) (start length : ℤ) :
    unitsOf (.text (String.ofList (Reference.slice s.toList start (some (start + length))))) =
        some (cut (Evaluator.utf16 s.toList) (deviceStart s.toList start).toNat
          (deviceStop s.toList start length).toNat) ↔
      SubstrMeets [.text s, .integer start, .integer length] := by
  simp only [unitsOf, Reference.slice, String.toList_ofList, Option.some.injEq, utf16_part, SubstrMeets,
    referenceStart]

/-- The start and the length of `substr`, absent or given. -/
def substrArgs (a b : Value) (c : Option Value) : List Value := a :: b :: c.toList

theorem substr_iff {a b : Value} {c : Option Value} (plainB : b.Plain) (plainC : ∀ value ∈ c, value.Plain) :
    unitsOf (Reference.substr (substrArgs a b c)) = Evaluator.substr (substrArgs a b c) ↔
      SubstrMeets (substrArgs a b c) := by
  have neither {args : List Value} (left : unitsOf (Reference.substr args) = none)
      (right : Evaluator.substr args = none) (meets : SubstrMeets args) :
      unitsOf (Reference.substr args) = Evaluator.substr args ↔ SubstrMeets args :=
    ⟨fun _ => meets, fun _ => left.trans right.symm⟩
  cases a with
  | text s =>
    cases b with
    | integer start =>
      cases c with
      | none => exact substr_rest s start
      | some c =>
        cases c with
        | null => exact substr_rest s start
        | integer length => exact substr_part s start length
        | text value => exact neither rfl rfl trivial
        | bool value => exact neither rfl rfl trivial
        | _ => exact (plainC _ rfl).elim
    | null => cases c <;> exact neither rfl rfl trivial
    | text value => cases c <;> exact neither rfl rfl trivial
    | bool value => cases c <;> exact neither rfl rfl trivial
    | _ => exact plainB.elim
  | _ => cases c <;> exact neither rfl rfl trivial

end Texts

section Order

theorem crosses_comm (s t : List Char) : crosses t s = crosses s t := by
  induction s generalizing t with
  | nil => cases t <;> rfl
  | cons c s ih =>
    cases t with
    | nil => rfl
    | cons d t =>
      unfold crosses
      by_cases same : c = d
      · rw [if_pos same, if_pos same.symm]
        exact ih t
      · rw [if_neg same, if_neg (Ne.symm same)]
        exact Bool.or_comm _ _

def orderings : List Operator := [.lt, .lte, .gt, .gte]

theorem flipped_eq_iff (flag p : Bool) : flipped flag (.bool p) = .bool p ↔ flag = false := by
  cases flag <;> cases p <;> simp [flipped]

theorem order_iff {op : Operator} (ordering : op ∈ orderings) (s t : String) :
    Reference.operate op [.text s, .text t] = Evaluator.operate op [.text s, .text t] ↔
      crosses s.toList t.toList = false := by
  have less (s t : String) : Reference.operate .lt [.text s, .text t] = Evaluator.operate .lt [.text s, .text t] ↔
      crosses s.toList t.toList = false := by
    have turned := @ordered_lt (.text s) (.text t) trivial trivial
    show Except.ok (Reference.ordered Binary64.lt lexLt (.text s) (.text t)) = Except.ok (Value.bool _) ↔ _
    rw [Except.ok.injEq, turned]
    exact flipped_eq_iff _ _
  have atMost (s t : String) :
      Reference.operate .lte [.text s, .text t] = Evaluator.operate .lte [.text s, .text t] ↔
        crosses s.toList t.toList = false := by
    have turned := @ordered_le (.text s) (.text t) trivial trivial
    show Except.ok (Reference.ordered _ _ (.text s) (.text t)) = Except.ok (Value.bool _) ↔ _
    rw [Except.ok.injEq, turned, ← crosses_comm]
    exact flipped_eq_iff _ _
  simp only [orderings, List.mem_cons, List.not_mem_nil, or_false] at ordering
  rcases ordering with rfl | rfl | rfl | rfl
  · exact less s t
  · exact atMost s t
  · rw [← crosses_comm]
    exact less t s
  · rw [← crosses_comm]
    exact atMost t s

end Order

section Casts

def SameReading : Option Binary64 → Option Binary64 → Prop
  | none, none => True
  | some (.finite q), some d => Binary64.truncated q = Evaluator.toLong d
  | _, _ => False

/-- Where `int` has the same integer: the double of an integer must be below the end of the range. -/
def IntMeets : Value → Prop
  | .integer n => Binary64.nearest n < 2 ^ 63
  | .text s => SameReading (Reference.float s) (Evaluator.toDoubleOrNull (Evaluator.trim s.toList))
  | _ => True

theorem truncated_lt_iff {q : ℚ} {k : ℤ} (positive : 0 < k) : Binary64.truncated q < k ↔ q < k := by
  have cast : (0 : ℚ) < k := by exact_mod_cast positive
  unfold Binary64.truncated
  split
  · rename_i negative
    have below : ⌈q⌉ ≤ 0 := Int.ceil_le.mpr (by exact_mod_cast negative.le)
    exact ⟨fun _ => by linarith, fun _ => by omega⟩
  · exact Int.floor_lt

theorem le_truncated {q : ℚ} {k : ℤ} (le : (k : ℚ) ≤ q) : k ≤ Binary64.truncated q := by
  unfold Binary64.truncated
  split
  · exact Int.cast_le.mp (le.trans (Int.le_ceil q))
  · exact Int.le_floor.mpr le

theorem int_integer {n : ℤ} (range : inRange n = true) :
    Reference.castInt (.integer n) = .ok (Evaluator.castInt (.integer n)) ↔ Binary64.nearest n < 2 ^ 63 := by
  have double := ofInt_eq range
  have size := abs_le.mp (Binary64.abs_nearest_le (abs_le_of_inRange range))
  have left : Reference.castInt (.integer n) = .ok (.integer (Binary64.truncated (Binary64.nearest n))) := by
    have float := @toFloat_eq (.int n) range
    rw [Num.double, double] at float
    simp only [Reference.castInt, Reference.asNumber, float]
    rfl
  have right : Evaluator.castInt (.integer n) = .integer (Evaluator.toLong (.finite (Binary64.nearest n))) := by
    simp only [Evaluator.castInt, Evaluator.castNumber, double]
  have low : -2 ^ 63 ≤ Binary64.truncated (Binary64.nearest n) :=
    le_truncated (by push_cast; exact size.1)
  have high : Binary64.truncated (Binary64.nearest n) < 2 ^ 63 ↔ Binary64.nearest n < 2 ^ 63 := by
    have bound := @truncated_lt_iff (Binary64.nearest n) ((2 : ℤ) ^ 63) (by norm_num)
    rwa [Int.cast_pow, Int.cast_ofNat] at bound
  rw [left, right, Except.ok.injEq, Value.integer.injEq, Evaluator.toLong, ← high]
  omega

theorem int_text (reference device : Option Binary64) :
    (match reference with
      | none => .ok .null
      | some d => do return Value.integer (← Reference.intOfFloat d)) = Except.ok (match device with
      | some d => Value.integer (Evaluator.toLong d)
      | none => .null) ↔ SameReading reference device := by
  cases reference with
  | none => cases device <;> simp [SameReading]
  | some d => cases d <;> cases device <;> simp [SameReading, Reference.intOfFloat]

theorem int_iff {a : Value} (plain : a.Plain) :
    Reference.castInt a = .ok (Evaluator.castInt a) ↔ IntMeets a := by
  cases a with
  | integer n => exact int_integer plain
  | text s =>
    have left : Reference.castInt (.text s) = (match Reference.float s with
        | none => .ok .null
        | some d => do return .integer (← Reference.intOfFloat d)) := by
      simp only [Reference.castInt, Reference.asNumber]
      rfl
    rw [left]
    exact int_text _ _
  | null => exact ⟨fun _ => trivial, fun _ => rfl⟩
  | bool value => exact ⟨fun _ => trivial, fun _ => rfl⟩
  | _ => exact plain.elim

theorem str_eq (lib : Library) (toText : Binary64 → String) {a : Value} (plain : a.Plain) :
    ((Reference.castStr lib a).map Value.text).getD .null = Evaluator.castStr toText a := by
  cases a <;> first | rfl | exact plain.elim

end Casts

section Dates

open Calendar

theorem fromisoformat_spec {cs : List Char} {d : Ymd} (is : Reference.fromisoformat cs = some d) :
    Valid d ∧ 1 ≤ d.year ∧ d.year ≤ 9999 := by
  unfold Reference.fromisoformat at is
  dsimp only at is
  split at is
  · cases is
  obtain ⟨⟨year, rest⟩, -, is⟩ := Option.bind_eq_some_iff.mp is
  dsimp only at is
  split at is
  · obtain ⟨⟨week, later⟩, -, is⟩ := Option.bind_eq_some_iff.mp is
    dsimp only at is
    split at is
    · exact isoWeek_spec is
    · obtain ⟨more, -, is⟩ := Option.bind_eq_some_iff.mp is
      obtain ⟨⟨day, last⟩, -, is⟩ := Option.bind_eq_some_iff.mp is
      exact isoWeek_spec is
  · obtain ⟨⟨month, later⟩, -, is⟩ := Option.bind_eq_some_iff.mp is
    obtain ⟨more, -, is⟩ := Option.bind_eq_some_iff.mp is
    obtain ⟨⟨day, last⟩, -, is⟩ := Option.bind_eq_some_iff.mp is
    exact (date_spec is).2

theorem dateOrNone_spec {a : Value} {d : Ymd} (is : Reference.dateOrNone a = some d) :
    Valid d ∧ 1 ≤ d.year ∧ d.year ≤ 9999 := by
  cases a <;> first | exact fromisoformat_spec is | cases is

theorem dates_unique {a : Value} {d d' : Ymd} (reference : Reference.dateOrNone a = some d)
    (device : Evaluator.isoDate a = some d') : d' = d := by
  cases a <;> first | exact reading_unique reference device | cases reference

def BothMeet (reference device : Option Ymd × Option Ymd) : Prop :=
  (reference.1.isSome ∧ reference.2.isSome) ↔ (device.1.isSome ∧ device.2.isSome)

def ofDates (f : Ymd → Ymd → ℤ) : Option Ymd → Option Ymd → Value
  | some d, some e => .integer (f d e)
  | _, _ => .null

theorem ofDates_iff {first second first' second' : Option Ymd} {f g : Ymd → Ymd → ℤ}
    (same : ∀ {d e d' e'}, first = some d → second = some e → first' = some d' → second' = some e' →
      f d e = g d' e') :
    ofDates f first second = ofDates g first' second' ↔ BothMeet (first, second) (first', second') := by
  unfold BothMeet
  cases first <;> cases second <;> cases first' <;> cases second' <;> simp [ofDates]
  exact same rfl rfl rfl rfl

theorem dateDiff_iff (a b : Value) :
    Reference.dateDiffDays a b = Evaluator.dateDiffDays a b ↔
      BothMeet (Reference.dateOrNone a, Reference.dateOrNone b) (Evaluator.isoDate a, Evaluator.isoDate b) := by
  have left : Reference.dateDiffDays a b =
      ofDates (fun d e => ordinal d - ordinal e) (Reference.dateOrNone a) (Reference.dateOrNone b) := by
    unfold Reference.dateDiffDays
    cases Reference.dateOrNone a <;> cases Reference.dateOrNone b <;> rfl
  have right : Evaluator.dateDiffDays a b =
      ofDates (fun d e => Evaluator.epochDays d - Evaluator.epochDays e) (Evaluator.isoDate a)
        (Evaluator.isoDate b) := by
    unfold Evaluator.dateDiffDays
    cases Evaluator.isoDate a <;> cases Evaluator.isoDate b <;> rfl
  rw [left, right]
  refine ofDates_iff ?_
  intro d e d' e' first second first' second'
  obtain rfl := dates_unique first first'
  obtain rfl := dates_unique second second'
  obtain ⟨validD, positiveD, -⟩ := dateOrNone_spec first
  obtain ⟨validE, positiveE, -⟩ := dateOrNone_spec second
  rw [epochDays_eq validD (by omega), epochDays_eq validE (by omega)]
  omega

def years (born ref : Ymd) : ℤ :=
  if ref.month < born.month ∨ (ref.month = born.month ∧ ref.day < born.day) then ref.year - born.year - 1
  else ref.year - born.year

theorem ageYears_iff (ctx : Context) (a : Value) (others : List Value) :
    Reference.ageYears ctx (a :: others) = Evaluator.ageYears ctx (a :: others) ↔
      BothMeet (Reference.dateOrNone a, Reference.ageDate ctx others)
        (Evaluator.isoDate a, Evaluator.ageDate ctx others) := by
  have left : Reference.ageYears ctx (a :: others) =
      ofDates years (Reference.dateOrNone a) (Reference.ageDate ctx others) := by
    rw [Reference.ageYears]
    cases Reference.dateOrNone a <;> cases Reference.ageDate ctx others <;> rfl
  have right : Evaluator.ageYears ctx (a :: others) =
      ofDates years (Evaluator.isoDate a) (Evaluator.ageDate ctx others) := by
    rw [Evaluator.ageYears]
    cases Evaluator.isoDate a <;> cases Evaluator.ageDate ctx others <;> rfl
  rw [left, right]
  refine ofDates_iff ?_
  intro d e d' e' first second first' second'
  obtain rfl := dates_unique first first'
  have same : e' = e := by
    cases others with
    | nil => exact reading_unique second second'
    | cons value rest =>
      cases value <;> first | exact reading_unique second second' | cases second
  rw [same]

/-- Where adding days agrees: the reference engine reads the date and the sum stays within the years 1 to
9999, exactly where the device reads the date. -/
def AddMeets (a : Value) : Value → Prop
  | .integer days =>
    ((Reference.dateOrNone a).bind fun d => Reference.addDays d days).isSome ↔ (Evaluator.isoDate a).isSome
  | _ => True

theorem fromEpochDays_eq {d moved : Ymd} {days : ℤ} (valid : Valid d) (positive : 1 ≤ d.year)
    (moves : Reference.addDays d days = some moved) :
    Evaluator.fromEpochDays (Evaluator.long (Evaluator.epochDays d + days)).toInt = Reference.isoformat moved := by
  unfold Reference.addDays at moves
  dsimp only at moves
  split at moves
  · rename_i bounds
    obtain rfl := Option.some.inj moves
    have validMoved := ofOrdinal_valid (ordinal d + days)
    have size := ordinal_bounded validMoved bounds.1 bounds.2
    have civil := civil_eq validMoved (by omega) size.2
    rw [ordinal_ofOrdinal] at size civil
    have sum : Evaluator.epochDays d + days = ordinal d + days - 719163 := by
      rw [epochDays_eq valid (by omega)]
      omega
    rw [sum, Evaluator.toInt_long (inRange_iff.mpr (by omega)), Evaluator.fromEpochDays, civil]
    rfl
  · cases moves

theorem dateAdd_iff (a : Value) {b : Value} (plain : b.Plain) :
    Reference.dateAddDays a b = Evaluator.dateAddDays a b ↔ AddMeets a b := by
  have without (left : Reference.dateAddDays a b = .null) (right : Evaluator.dateAddDays a b = .null)
      (meets : AddMeets a b) : Reference.dateAddDays a b = Evaluator.dateAddDays a b ↔ AddMeets a b :=
    ⟨fun _ => meets, fun _ => left.trans right.symm⟩
  cases b with
  | integer days =>
    unfold Reference.dateAddDays Evaluator.dateAddDays AddMeets
    simp only [Reference.integer, Reference.number, Evaluator.integerOf]
    cases reference : Reference.dateOrNone a with
    | none => cases Evaluator.isoDate a <;> simp
    | some d =>
      cases moves : Reference.addDays d days with
      | none => cases Evaluator.isoDate a <;> simp [moves]
      | some moved =>
        cases device : Evaluator.isoDate a with
        | none => simp [moves]
        | some d' =>
          obtain rfl := dates_unique reference device
          obtain ⟨valid, positive, -⟩ := dateOrNone_spec reference
          simp [moves, fromEpochDays_eq valid positive moves]
  | null =>
    refine without ?_ ?_ trivial
    · unfold Reference.dateAddDays
      cases Reference.dateOrNone a <;> rfl
    · unfold Evaluator.dateAddDays
      cases Evaluator.isoDate a <;> rfl
  | text value =>
    refine without ?_ ?_ trivial
    · unfold Reference.dateAddDays
      cases Reference.dateOrNone a <;> rfl
    · unfold Evaluator.dateAddDays
      cases Evaluator.isoDate a <;> rfl
  | bool value =>
    refine without ?_ ?_ trivial
    · unfold Reference.dateAddDays
      cases Reference.dateOrNone a <;> rfl
    · unfold Evaluator.dateAddDays
      cases Evaluator.isoDate a <;> rfl
  | _ => exact plain.elim

end Dates

/-- What each engine makes of the functions, and the exact condition for it to be the same: characters of the
basic plane for `len`, ranges of `substr` that cover the same units, texts that do not cross for an ordering, a
number that fits for `int`, dates that both engines read for the date functions. -/
theorem functions_agree_iff (lib : Library) (toText : Binary64 → String) (ctx : Context) :
    (∀ a, Reference.len a = Evaluator.len a ↔ LenMeets a) ∧
    (∀ a b c, b.Plain → (∀ value ∈ c, value.Plain) →
      (unitsOf (Reference.substr (substrArgs a b c)) = Evaluator.substr (substrArgs a b c) ↔
        SubstrMeets (substrArgs a b c))) ∧
    (∀ op ∈ orderings, ∀ s t : String,
      (Reference.operate op [.text s, .text t] = Evaluator.operate op [.text s, .text t] ↔
        crosses s.toList t.toList = false)) ∧
    (∀ a, a.Plain → (Reference.castInt a = .ok (Evaluator.castInt a) ↔ IntMeets a)) ∧
    (∀ a, a.Plain → ((Reference.castStr lib a).map Value.text).getD .null = Evaluator.castStr toText a) ∧
    (∀ a others, Reference.ageYears ctx (a :: others) = Evaluator.ageYears ctx (a :: others) ↔
      BothMeet (Reference.dateOrNone a, Reference.ageDate ctx others)
        (Evaluator.isoDate a, Evaluator.ageDate ctx others)) ∧
    (∀ a b, Reference.dateDiffDays a b = Evaluator.dateDiffDays a b ↔
      BothMeet (Reference.dateOrNone a, Reference.dateOrNone b) (Evaluator.isoDate a, Evaluator.isoDate b)) ∧
    ∀ a b, b.Plain → (Reference.dateAddDays a b = Evaluator.dateAddDays a b ↔ AddMeets a b) :=
  ⟨len_iff, fun _ _ _ plainB plainC => substr_iff plainB plainC, fun _ ordering s t => order_iff ordering s t,
    fun _ plain => int_iff plain, fun _ plain => str_eq lib toText plain, ageYears_iff ctx, dateDiff_iff,
    fun a _ plain => dateAdd_iff a plain⟩

/-- The two days from the day before to the day after a leap day, read by both engines. -/
theorem leap_days_agree :
    Reference.dateDiffDays (.text "2024-03-01") (.text "2024-02-28") =
      Evaluator.dateDiffDays (.text "2024-03-01") (.text "2024-02-28") := by
  refine ((functions_agree_iff noLibrary (fun _ => "") bare).2.2.2.2.2.2.1 _ _).mpr ?_
  unfold BothMeet
  decide +kernel

/-- One character outside the basic plane: a text of length 1 to the reference engine and of length 2 to the
device's. -/
theorem astral_length : ¬ ∀ a : Value, a.Plain → Reference.len a = Evaluator.len a := by
  intro always
  have basic : Basic "😀" := (len_iff (.text "😀")).mp (always (.text "😀") trivial)
  exact absurd (basic '😀' (by decide)) (by decide)

end DataCollectionLab.Form
