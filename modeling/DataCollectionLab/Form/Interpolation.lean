import DataCollectionLab.Form.Dates
import DataCollectionLab.Lib.Except
import DataCollectionLab.Lib.Utf16
import DataCollectionLab.Lib.Weights
import Mathlib.Data.List.TakeWhile

/-!
Interpolated texts. A template has slots, braces written twice and plain text; both engines scan it from the left
with one pattern and fill each slot with its argument, isolated. What the two take for a digit and for an index is
not the same.
-/

namespace DataCollectionLab.Form

open Lib

namespace Interpolation

inductive Piece where
  | doubled (brace : Char)
  | slot (digits : List Char)
  | char (c : Char)

def slotDigits (decimal : Char → Bool) (rest : List Char) : Option (List Char) :=
  let digits := rest.takeWhile decimal
  if digits ≠ [] ∧ (rest.dropWhile decimal).head? = some '\x7d' then some digits else none

def first (decimal : Char → Bool) (c : Char) (rest : List Char) : Piece × ℕ :=
  if c = '\x7b' ∧ rest.head? = some '\x7b' then (.doubled '\x7b', 1)
  else if c = '\x7d' ∧ rest.head? = some '\x7d' then (.doubled '\x7d', 1)
  else if c = '\x7b' then
    match slotDigits decimal rest with
    | some digits => (.slot digits, digits.length + 1)
    | none => (.char c, 0)
  else (.char c, 0)

def scanFrom (decimal : Char → Bool) : ℕ → List Char → List Piece
  | _, [] => []
  | skip + 1, _ :: rest => scanFrom decimal skip rest
  | 0, c :: rest => (first decimal c rest).1 :: scanFrom decimal (first decimal c rest).2 rest

/-- `_SLOT.finditer`, with the characters between the matches. -/
def scan (decimal : Char → Bool) (template : List Char) : List Piece := scanFrom decimal 0 template

def Piece.slot? : Piece → Option (List Char)
  | slot digits => some digits
  | doubled _ | char _ => none

def decimal (c : Char) : Bool := (Reference.digitOf c.toNat).isSome

def slotNumber (digits : List Char) : ℕ := digits.foldl (fun n c => n * 10 + (Reference.digitOf c.toNat).getD 0) 0

def firstStrongIsolate : Char := '\u2068'

def popDirectionalIsolate : Char := '\u2069'

def isolate (text : String) : List Char :=
  if text = "" then [] else firstStrongIsolate :: (text.toList ++ [popDirectionalIsolate])

def argument (values : List String) (index : ℕ) : List Char :=
  if index < values.length then isolate (values.getD index "") else []

end Interpolation

namespace Reference

open Interpolation

/-- `int` of a text of digits; it takes no more than 4300. -/
def intOfDigits (digits : List Char) : Except Failure ℕ :=
  if digits.length ≤ 4300 then .ok (slotNumber digits) else .error (.raised "ValueError")

def fill (values : List String) : Piece → Except Failure (List Char)
  | .doubled brace => .ok [brace]
  | .char c => .ok [c]
  | .slot digits => do return argument values (← intOfDigits digits)

def render (template : String) (values : List String) : Except Failure String := do
  return String.ofList (← (scan decimal template.toList).mapM (fill values)).flatten

def slotIndices (template : String) : Except Failure (List ℕ) :=
  ((scan decimal template.toList).filterMap Piece.slot?).mapM intOfDigits

end Reference

namespace Evaluator

open Interpolation

/-- What the regular expressions of the platform take for a digit: the ASCII digits, and no more than decimals. -/
structure Platform where
  decimal : Char → Bool
  ascii : ∀ c, c.isDigit = true → decimal c = true
  only : ∀ c, decimal c = true → Interpolation.decimal c = true

/-- `groupValues[1].toIntOrNull()` of a slot. -/
def slotIndex (digits : List Char) : Option ℤ := toIntOrNull (utf16 digits)

def fill (values : List String) : Piece → List Char
  | .doubled brace => [brace]
  | .char c => [c]
  | .slot digits =>
    match slotIndex digits with
    | none => ['\x7d']
    | some index => if index < values.length then isolate (values.getD index.toNat "") else []

def render (platform : Platform) (template : String) (values : List String) : String :=
  String.ofList ((scan platform.decimal template.toList).flatMap (fill values))

def slotIndices (platform : Platform) (template : String) : List ℤ :=
  ((scan platform.decimal template.toList).filterMap Piece.slot?).filterMap slotIndex

end Evaluator

namespace Interpolation

/-! ### What a template says -/

def Begins : List Char → Prop
  | [] => False
  | c :: rest =>
    (c = '\x7b' ∨ c = '\x7d') ∧ rest.head? = some c ∨
      c = '\x7b' ∧ ∃ digits after, digits ≠ [] ∧ (∀ d ∈ digits, decimal d = true) ∧ rest = digits ++ '\x7d' :: after

inductive Reads : List Char → List Piece → Prop
  | done : Reads [] []
  | doubled {brace : Char} {rest : List Char} {pieces : List Piece} : brace = '\x7b' ∨ brace = '\x7d' → Reads rest pieces →
      Reads (brace :: brace :: rest) (.doubled brace :: pieces)
  | slot {digits rest : List Char} {pieces : List Piece} : digits ≠ [] → (∀ d ∈ digits, decimal d = true) →
      Reads rest pieces → Reads ('\x7b' :: (digits ++ '\x7d' :: rest)) (.slot digits :: pieces)
  | char {c : Char} {rest : List Char} {pieces : List Piece} : ¬ Begins (c :: rest) → Reads rest pieces →
      Reads (c :: rest) (.char c :: pieces)

def Piece.text (values : List String) : Piece → List Char
  | doubled brace => [brace]
  | slot digits => argument values (slotNumber digits)
  | char c => [c]

def filled (pieces : List Piece) (values : List String) : String := String.ofList (pieces.flatMap (Piece.text values))

def indices (pieces : List Piece) : List ℕ := (pieces.filterMap Piece.slot?).map slotNumber

def Agrees (platform : Evaluator.Platform) (template : String) (values : List String) : Prop :=
  ∃ pieces, Reads template.toList pieces ∧ Reference.render template values = .ok (filled pieces values) ∧
    Evaluator.render platform template values = filled pieces values ∧
    (∃ found, Reference.slotIndices template = .ok found ∧ ∀ n, n ∈ found ↔ n ∈ indices pieces) ∧
    ∀ n : ℤ, n ∈ Evaluator.slotIndices platform template ↔ ∃ m ∈ indices pieces, n = m

/-- The digits of a slot that both engines read: each is one unit that the platform's pattern takes, there are no
more than `int` takes, and their number is an `Int`. -/
structure Fits (platform : Evaluator.Platform) (digits : List Char) : Prop where
  matched : ∀ d ∈ digits, platform.decimal d = true
  basic : ∀ d ∈ digits, d.toNat < 0x10000
  short : digits.length ≤ 4300
  small : slotNumber digits < 2 ^ 31

/-! ### The scan reads the template -/

section Scan

variable {D : Char → Bool}

theorem scanFrom_eq (skip : ℕ) (cs : List Char) : scanFrom D skip cs = scan D (cs.drop skip) := by
  induction skip generalizing cs with
  | zero => rfl
  | succ skip ih =>
    cases cs with
    | nil => rfl
    | cons c rest => exact ih rest

theorem scan_cons (c : Char) (rest : List Char) :
    scan D (c :: rest) = (first D c rest).1 :: scan D (rest.drop (first D c rest).2) := by
  rw [← scanFrom_eq]
  rfl

theorem slotDigits_some {rest digits : List Char} (found : slotDigits D rest = some digits) :
    digits ≠ [] ∧ (∀ d ∈ digits, D d = true) ∧ ∃ after, rest = digits ++ '\x7d' :: after := by
  unfold slotDigits at found
  dsimp only at found
  split at found
  · rename_i held
    obtain rfl := Option.some.inj found
    refine ⟨held.1, fun d member => List.mem_takeWhile_imp member, ?_⟩
    cases after : rest.dropWhile D with
    | nil =>
      rw [after] at held
      cases held.2
    | cons c after' =>
      rw [after] at held
      obtain rfl : c = '\x7d' := Option.some.inj held.2
      exact ⟨after', by rw [← after, List.takeWhile_append_dropWhile]⟩
  · cases found

theorem slotDigits_of {digits after : List Char} (brace : D '\x7d' = false) (some : digits ≠ [])
    (held : ∀ d ∈ digits, D d = true) : slotDigits D (digits ++ '\x7d' :: after) = Option.some digits := by
  have taken : (digits ++ '\x7d' :: after).takeWhile D = digits := by
    rw [List.takeWhile_append_of_pos held, List.takeWhile_cons, if_neg (by simp [brace]), List.append_nil]
  have dropped : (digits ++ '\x7d' :: after).dropWhile D = '\x7d' :: after := by
    rw [List.dropWhile_append_of_pos held, List.dropWhile_cons, if_neg (by simp [brace])]
  unfold slotDigits
  rw [taken, dropped]
  exact if_pos ⟨some, rfl⟩

theorem first_doubled {c : Char} (brace : c = '\x7b' ∨ c = '\x7d') (tail : List Char) :
    first D c (c :: tail) = (.doubled c, 1) := by
  unfold first
  rcases brace with rfl | rfl
  · exact if_pos ⟨rfl, rfl⟩
  · rw [if_neg fun both => absurd both.1 (by decide)]
    exact if_pos ⟨rfl, rfl⟩

def Plain (D : Char → Bool) (c : Char) (rest : List Char) : Prop :=
  ¬ ((c = '\x7b' ∨ c = '\x7d') ∧ rest.head? = some c) ∧ (c = '\x7b' → slotDigits D rest = none)

theorem first_char {c : Char} {rest : List Char} (plain : Plain D c rest) : first D c rest = (.char c, 0) := by
  obtain ⟨single, unslotted⟩ := plain
  unfold first
  rw [if_neg, if_neg]
  · split
    · rename_i opens
      rw [unslotted opens]
    · rfl
  · rintro ⟨rfl, next⟩
    exact single ⟨.inr rfl, next⟩
  · rintro ⟨rfl, next⟩
    exact single ⟨.inl rfl, next⟩

theorem first_slot {rest digits : List Char} (open_digit : D '\x7b' = false) (found : slotDigits D rest = some digits) :
    first D '\x7b' rest = (.slot digits, digits.length + 1) := by
  obtain ⟨some, held, after, rfl⟩ := slotDigits_some found
  unfold first
  rw [if_neg, if_neg fun both => absurd both.1 (by decide), if_pos rfl, found]
  rintro ⟨-, next⟩
  obtain ⟨d, others, rfl⟩ := List.exists_cons_of_ne_nil some
  obtain rfl : d = '\x7b' := Option.some.inj next
  rw [held '\x7b' List.mem_cons_self] at open_digit
  cases open_digit

theorem first_cases (D : Char → Bool) (c : Char) (rest : List Char) :
    (∃ tail, (c = '\x7b' ∨ c = '\x7d') ∧ rest = c :: tail) ∨
    (∃ digits, c = '\x7b' ∧ slotDigits D rest = some digits) ∨ Plain D c rest := by
  by_cases doubled : (c = '\x7b' ∨ c = '\x7d') ∧ rest.head? = some c
  · obtain ⟨tail, is⟩ := List.head?_eq_some_iff.mp doubled.2
    exact .inl ⟨tail, doubled.1, is⟩
  by_cases opens : c = '\x7b'
  · cases found : slotDigits D rest with
    | none => exact .inr (.inr ⟨doubled, fun _ => found⟩)
    | some digits => exact .inr (.inl ⟨digits, opens, rfl⟩)
  · exact .inr (.inr ⟨doubled, fun is => absurd is opens⟩)

theorem drop_slot (digits after : List Char) : (digits ++ '\x7d' :: after).drop (digits.length + 1) = after := by
  rw [← List.drop_drop, List.drop_left]
  rfl

end Scan

theorem decimal_brace : decimal '\x7d' = false := by decide +kernel

theorem decimal_open : decimal '\x7b' = false := by decide +kernel

theorem decimal_isolate : decimal firstStrongIsolate = false := by decide +kernel

theorem reads_scan (template : List Char) : Reads template (scan decimal template) := by
  induction size : template.length using Nat.strong_induction_on generalizing template with
  | _ n ih =>
    cases template with
    | nil => exact .done
    | cons c rest =>
      rw [scan_cons]
      rcases first_cases decimal c rest with ⟨tail, brace, rfl⟩ | ⟨digits, rfl, found⟩ | plain
      · rw [first_doubled brace]
        exact .doubled brace (ih tail.length (by simp at size; omega) tail rfl)
      · rw [first_slot decimal_open found]
        obtain ⟨some, held, after, rfl⟩ := slotDigits_some found
        dsimp only
        rw [drop_slot]
        exact .slot some held (ih after.length (by simp at size; omega) after rfl)
      · rw [first_char plain]
        refine .char ?_ (ih rest.length (by simp at size; omega) rest rfl)
        rintro (doubled | ⟨opens, digits, after, some, held, rfl⟩)
        · exact plain.1 doubled
        · have unslotted := plain.2 opens
          rw [slotDigits_of decimal_brace some held] at unslotted
          cases unslotted

theorem Plain.narrow {D : Char → Bool} {c : Char} {rest : List Char} (plain : Plain decimal c rest)
    (only : ∀ c, D c = true → decimal c = true) : Plain D c rest := by
  refine ⟨plain.1, fun is => ?_⟩
  cases taken : slotDigits D rest with
  | none => rfl
  | some digits =>
    obtain ⟨some, held, after, rfl⟩ := slotDigits_some taken
    have found := plain.2 is
    rw [slotDigits_of decimal_brace some fun d member => only d (held d member)] at found
    cases found

theorem doubled_begins {brace : Char} {rest : List Char} (is : brace = '\x7b' ∨ brace = '\x7d') :
    Begins (brace :: brace :: rest) := .inl ⟨is, rfl⟩

theorem slot_begins {digits rest : List Char} (some : digits ≠ []) (held : ∀ d ∈ digits, decimal d = true) :
    Begins ('\x7b' :: (digits ++ '\x7d' :: rest)) := .inr ⟨rfl, digits, rest, some, held, rfl⟩

theorem slot_undoubled {digits rest tail : List Char} (some : digits ≠ []) (held : ∀ d ∈ digits, decimal d = true)
    (same : digits ++ '\x7d' :: rest = '\x7b' :: tail) : False := by
  obtain ⟨d, others, rfl⟩ := List.exists_cons_of_ne_nil some
  obtain rfl : d = '\x7b' := (List.cons.inj same).1
  have digit := held '\x7b' List.mem_cons_self
  rw [decimal_open] at digit
  cases digit

theorem slot_inj {digits digits' rest rest' : List Char} (held : ∀ d ∈ digits, decimal d = true)
    (held' : ∀ d ∈ digits', decimal d = true) (same : digits ++ '\x7d' :: rest = digits' ++ '\x7d' :: rest') :
    digits = digits' ∧ rest = rest' := by
  have taken := congrArg (List.takeWhile decimal) same
  rw [List.takeWhile_append_of_pos held, List.takeWhile_append_of_pos held', List.takeWhile_cons, List.takeWhile_cons,
    if_neg (by simp [decimal_brace]), if_neg (by simp [decimal_brace]), List.append_nil, List.append_nil] at taken
  subst taken
  exact ⟨rfl, (List.cons.inj (List.append_cancel_left same)).2⟩

theorem Reads.unique {template : List Char} {pieces pieces' : List Piece} (reads : Reads template pieces)
    (reads' : Reads template pieces') : pieces = pieces' := by
  induction reads generalizing pieces' with
  | done =>
    cases reads'
    rfl
  | doubled brace _ ih =>
    generalize same : _ :: _ :: _ = text at reads'
    cases reads' with
    | done => cases same
    | doubled _ later =>
      cases same
      rw [ih later]
    | slot some held later =>
      injection same with opens same
      exact (slot_undoubled some held (opens ▸ same.symm)).elim
    | char plain later =>
      rw [← same] at plain
      exact absurd (doubled_begins brace) plain
  | slot some held _ ih =>
    generalize same : _ :: (_ ++ _) = text at reads'
    cases reads' with
    | done => cases same
    | doubled _ later =>
      injection same with opens same
      exact (slot_undoubled some held (opens ▸ same)).elim
    | slot some' held' later =>
      injection same with _ same
      obtain ⟨rfl, rfl⟩ := slot_inj held held' same
      rw [ih later]
    | char plain later =>
      rw [← same] at plain
      exact absurd (slot_begins some held) plain
  | char plain _ ih =>
    generalize same : _ :: _ = text at reads'
    cases reads' with
    | done => cases same
    | doubled brace later =>
      rw [same] at plain
      exact absurd (doubled_begins brace) plain
    | slot some held later =>
      rw [same] at plain
      exact absurd (slot_begins some held) plain
    | char _ later =>
      cases same
      rw [ih later]

/-! ### What the device reads of a slot -/

theorem digitOf_some {n d : ℕ} (is : Reference.digitOf n = some d) : 0x30 ≤ n ∧ ¬ (0xD800 ≤ n ∧ n ≤ 0xDFFF) := by
  have scripts : ∀ script ∈ Reference.zeros, 0x30 ≤ script ∧ (script + 10 ≤ 0xD800 ∨ 0xDFFF < script) := by decide +kernel
  unfold Reference.digitOf at is
  obtain ⟨script, found, -⟩ := Option.map_eq_some_iff.mp is
  have listed := scripts script (List.mem_of_find?_eq_some found)
  have within := List.find?_some found
  simp only [Bool.and_eq_true, decide_eq_true_eq] at within
  omega

theorem digitOf_pair {n : ℕ} (pair : 0xD800 ≤ n ∧ n ≤ 0xDFFF) : Reference.digitOf n = none := by
  cases is : Reference.digitOf n with
  | none => rfl
  | some d => exact absurd pair (digitOf_some is).2

theorem digitsOrNull_basic {digits : List Char} (held : ∀ d ∈ digits, decimal d = true)
    (basic : ∀ d ∈ digits, d.toNat < 0x10000) (value : ℕ) :
    Evaluator.digitsOrNull value (Evaluator.utf16 digits) =
      some ((digits.foldl (fun n c => n * 10 + (Reference.digitOf c.toNat).getD 0) value : ℕ) : ℤ) := by
  induction digits generalizing value with
  | nil => rfl
  | cons c digits ih =>
    obtain ⟨d, is⟩ := Option.isSome_iff_exists.mp (held c List.mem_cons_self)
    have units : Evaluator.utf16 (c :: digits) = c.toNat :: Evaluator.utf16 digits := by
      rw [Evaluator.utf16, List.flatMap_cons, Evaluator.utf16Units, if_pos (basic c List.mem_cons_self)]
      rfl
    have later := ih (fun d member => held d (List.mem_cons_of_mem _ member))
      (fun d member => basic d (List.mem_cons_of_mem _ member)) (value * 10 + d)
    rw [units, digitsOrNull_cons is, List.foldl_cons, is]
    push_cast at later
    exact later

theorem digitsOrNull_beyond {digits : List Char} (held : ∀ d ∈ digits, decimal d = true)
    (beyond : ∃ d ∈ digits, 0x10000 ≤ d.toNat) (value : ℤ) :
    Evaluator.digitsOrNull value (Evaluator.utf16 digits) = none := by
  induction digits generalizing value with
  | nil =>
    obtain ⟨d, member, -⟩ := beyond
    cases member
  | cons c digits ih =>
    by_cases basic : c.toNat < 0x10000
    · obtain ⟨n, is⟩ := Option.isSome_iff_exists.mp (held c List.mem_cons_self)
      have units : Evaluator.utf16 (c :: digits) = c.toNat :: Evaluator.utf16 digits := by
        rw [Evaluator.utf16, List.flatMap_cons, Evaluator.utf16Units, if_pos basic]
        rfl
      rw [units, digitsOrNull_cons is]
      apply ih fun d member => held d (List.mem_cons_of_mem _ member)
      obtain ⟨d, member, far⟩ := beyond
      rcases List.mem_cons.mp member with rfl | member
      · omega
      · exact ⟨d, member, far⟩
    · have units : Evaluator.utf16 (c :: digits) = (0xD800 + (c.toNat - 0x10000) / 0x400) ::
          (0xDC00 + (c.toNat - 0x10000) % 0x400) :: Evaluator.utf16 digits := by
        rw [Evaluator.utf16, List.flatMap_cons, Evaluator.utf16Units, if_neg basic]
        rfl
      have valid := Utf16.scalar c
      have high := @digitOf_pair (0xD800 + (c.toNat - 0x10000) / 0x400) (by omega)
      rw [units, Evaluator.digitsOrNull, high]
      rfl

theorem slotIndex_eq {digits : List Char} (some : digits ≠ []) (held : ∀ d ∈ digits, decimal d = true) :
    Evaluator.slotIndex digits = Evaluator.digitsOrNull 0 (Evaluator.utf16 digits) >>= Evaluator.int32 := by
  obtain ⟨c, others, rfl⟩ := List.exists_cons_of_ne_nil some
  obtain ⟨n, is⟩ := Option.isSome_iff_exists.mp (held c List.mem_cons_self)
  have low := (digitOf_some is).1
  have leads : ∃ unit units, Evaluator.utf16 (c :: others) = unit :: units ∧ 0x30 ≤ unit := by
    rw [Evaluator.utf16, List.flatMap_cons, Evaluator.utf16Units]
    split
    · exact ⟨_, _, rfl, low⟩
    · exact ⟨_, _, rfl, by omega⟩
  obtain ⟨unit, units, is, low⟩ := leads
  rw [Evaluator.slotIndex, is, Evaluator.toIntOrNull, if_neg (by omega)]

theorem slotIndex_iff {digits : List Char} (some : digits ≠ []) (held : ∀ d ∈ digits, decimal d = true) (index : ℤ) :
    Evaluator.slotIndex digits = Option.some index ↔
      ((∀ d ∈ digits, d.toNat < 0x10000) ∧ slotNumber digits < 2 ^ 31) ∧ index = slotNumber digits := by
  rw [slotIndex_eq some held]
  by_cases basic : ∀ d ∈ digits, d.toNat < 0x10000
  · have read : Evaluator.digitsOrNull 0 (Evaluator.utf16 digits) = Option.some (slotNumber digits : ℤ) := by
      have whole := digitsOrNull_basic held basic 0
      rw [Nat.cast_zero] at whole
      exact whole
    rw [read, Option.bind_eq_bind, Option.bind_some]
    by_cases small : slotNumber digits < 2 ^ 31
    · have fits : Evaluator.int32 (slotNumber digits : ℤ) = Option.some (slotNumber digits : ℤ) := if_pos ⟨by omega, by omega⟩
      rw [fits, Option.some.injEq]
      exact ⟨fun same => ⟨⟨basic, small⟩, same.symm⟩, fun both => both.2.symm⟩
    · have large : Evaluator.int32 (slotNumber digits : ℤ) = none := if_neg fun fits => small (by omega)
      rw [large]
      exact iff_of_false (by simp) fun both => small both.1.2
  · push Not at basic
    rw [digitsOrNull_beyond held basic 0]
    refine iff_of_false (by simp) ?_
    rintro ⟨⟨basic', -⟩, -⟩
    obtain ⟨d, member, far⟩ := basic
    have := basic' d member
    omega

/-! ### The weight of a text -/

section Weights

variable {D : Char → Bool} {w : Char → ℕ} {values : List String}

def written (D : Char → Bool) (values : List String) (template : List Char) : List Char :=
  (scan D template).flatMap (Evaluator.fill values)

def deviceText (D : Char → Bool) (values : List String) : Piece → List Char
  | .slot digits => if digits.all D then Evaluator.fill values (.slot digits) else digits
  | piece => Evaluator.fill values piece

theorem written_char {c : Char} {rest : List Char} (is : first D c rest = (.char c, 0)) :
    weigh w (written D values (c :: rest)) = w c + weigh w (written D values rest) := by
  unfold written
  rw [scan_cons, is, List.flatMap_cons, weigh_append]
  exact congrArg (· + _) (weigh_single c)

theorem plain_digit_char {d : Char} (digit : decimal d = true) (rest : List Char) : Plain D d rest := by
  have opens : d ≠ '\x7b' := by
    rintro rfl
    rw [decimal_open] at digit
    cases digit
  have closes : d ≠ '\x7d' := by
    rintro rfl
    rw [decimal_brace] at digit
    cases digit
  exact ⟨fun both => both.1.elim opens closes, fun is => absurd is opens⟩

theorem written_digits {digits : List Char} (held : ∀ d ∈ digits, decimal d = true) (rest : List Char) :
    weigh w (written D values (digits ++ rest)) = weigh w digits + weigh w (written D values rest) := by
  induction digits with
  | nil => simp [weigh]
  | cons d digits ih =>
    rw [List.cons_append, written_char (first_char (plain_digit_char (held d List.mem_cons_self) _)),
      ih fun d member => held d (List.mem_cons_of_mem _ member)]
    show _ = w d + weigh w digits + _
    omega

theorem written_doubled {c : Char} (brace : c = '\x7b' ∨ c = '\x7d') (tail : List Char) :
    written D values (c :: c :: tail) = c :: written D values tail := by
  unfold written
  rw [scan_cons, first_doubled brace]
  rfl

theorem written_close (closes : w '\x7d' = 0) (rest : List Char) :
    weigh w (written D values ('\x7d' :: rest)) = weigh w (written D values rest) := by
  induction size : rest.length using Nat.strong_induction_on generalizing rest with
  | _ n ih =>
    rcases first_cases D '\x7d' rest with ⟨tail, brace, rfl⟩ | ⟨_, opens, -⟩ | plain
    · rw [written_doubled brace, ih tail.length (by simp at size; omega) tail rfl]
      show w '\x7d' + weigh w (written D values tail) = _
      rw [closes, Nat.zero_add]
    · exact absurd opens (by decide)
    · rw [written_char (first_char plain), closes, Nat.zero_add]

theorem written_weight (only : ∀ c, D c = true → decimal c = true) (opens : w '\x7b' = 0) (closes : w '\x7d' = 0)
    (template : List Char) :
    weigh w (written D values template) = ((scan decimal template).map fun p => weigh w (deviceText D values p)).sum := by
  have never : ∀ c, decimal c = false → D c = false := by
    intro c plain
    by_contra held
    rw [only c (by simpa using held)] at plain
    cases plain
  induction size : template.length using Nat.strong_induction_on generalizing template with
  | _ n ih =>
    cases template with
    | nil => rfl
    | cons c rest =>
      rw [scan_cons, List.map_cons, List.sum_cons]
      rcases first_cases decimal c rest with ⟨tail, brace, rfl⟩ | ⟨digits, rfl, found⟩ | plain
      · have later := ih tail.length (by simp at size; omega) tail rfl
        rw [first_doubled brace, written_doubled brace]
        show w c + weigh w (written D values tail) = weigh w [c] + ((scan decimal tail).map _).sum
        rw [weigh_single, later]
      · rw [first_slot decimal_open found]
        obtain ⟨some, held, after, rfl⟩ := slotDigits_some found
        have later := ih after.length (by simp at size; omega) after rfl
        dsimp only
        rw [drop_slot, ← later]
        by_cases matched : digits.all D = true
        · have taken := @slotDigits_of D digits after (never _ decimal_brace) some (List.all_eq_true.mp matched)
          unfold written
          rw [scan_cons, first_slot (never _ decimal_open) taken, List.flatMap_cons, weigh_append, drop_slot]
          exact congrArg (weigh w · + _) (if_pos matched).symm
        · have untaken : Plain D '\x7b' (digits ++ '\x7d' :: after) := by
            refine ⟨fun both => ?_, fun _ => ?_⟩
            · obtain ⟨d, others, rfl⟩ := List.exists_cons_of_ne_nil some
              obtain rfl : d = '\x7b' := Option.some.inj both.2
              have digit := held '\x7b' List.mem_cons_self
              rw [decimal_open] at digit
              cases digit
            · cases taken : slotDigits D (digits ++ '\x7d' :: after) with
              | none => rfl
              | some other =>
                obtain ⟨-, heldOther, rest, same⟩ := slotDigits_some taken
                obtain ⟨rfl, -⟩ := slot_inj held (fun d member => only d (heldOther d member)) same
                exact absurd (List.all_eq_true.mpr heldOther) matched
          rw [written_char (first_char untaken), opens, Nat.zero_add, written_digits held, written_close closes]
          exact congrArg (weigh w · + _) (if_neg matched).symm
      · have later := ih rest.length (by simp at size; omega) rest rfl
        rw [first_char plain, written_char (first_char (plain.narrow only)), later]
        exact congrArg (· + _) (weigh_single c).symm

end Weights

/-! ### Where the engines agree -/

section Agreement

variable {platform : Evaluator.Platform} {template : String} {values : List String}

theorem reads_slot {cs digits : List Char} {pieces : List Piece} (reads : Reads cs pieces) (member : .slot digits ∈ pieces) :
    digits ≠ [] ∧ ∀ d ∈ digits, decimal d = true := by
  induction reads with
  | done => cases member
  | doubled _ _ ih => exact ih ((List.mem_cons.mp member).resolve_left Piece.noConfusion)
  | slot some held _ ih =>
    rcases List.mem_cons.mp member with same | member
    · cases same
      exact ⟨some, held⟩
    · exact ih member
  | char _ _ ih => exact ih ((List.mem_cons.mp member).resolve_left Piece.noConfusion)

theorem scan_matched {D : Char → Bool} (only : ∀ c, D c = true → decimal c = true) (template : List Char)
    (matched : ∀ digits, .slot digits ∈ scan decimal template → ∀ d ∈ digits, D d = true) :
    scan D template = scan decimal template := by
  have never : ∀ c, decimal c = false → D c = false := by
    intro c plain
    by_contra held
    rw [only c (by simpa using held)] at plain
    cases plain
  induction size : template.length using Nat.strong_induction_on generalizing template with
  | _ n ih =>
    cases template with
    | nil => rfl
    | cons c rest =>
      rw [scan_cons] at matched
      rw [scan_cons, scan_cons]
      rcases first_cases decimal c rest with ⟨tail, brace, rfl⟩ | ⟨digits, rfl, found⟩ | plain
      · rw [first_doubled brace] at matched
        rw [first_doubled brace, first_doubled brace]
        exact congrArg (_ :: ·) (ih tail.length (by simp at size; omega) tail
          (fun digits member => matched digits (List.mem_cons_of_mem _ member)) rfl)
      · rw [first_slot decimal_open found] at matched
        obtain ⟨some, held, after, rfl⟩ := slotDigits_some found
        dsimp only at matched
        rw [drop_slot] at matched
        have taken := @slotDigits_of D digits after (never _ decimal_brace) some (matched digits List.mem_cons_self)
        rw [first_slot decimal_open found, first_slot (never _ decimal_open) taken]
        dsimp only
        rw [drop_slot]
        exact congrArg (_ :: ·) (ih after.length (by simp at size; omega) after
          (fun digits member => matched digits (List.mem_cons_of_mem _ member)) rfl)
      · rw [first_char plain] at matched
        rw [first_char plain, first_char (plain.narrow only)]
        exact congrArg (_ :: ·) (ih rest.length (by simp at size; omega) rest
          (fun digits member => matched digits (List.mem_cons_of_mem _ member)) rfl)

theorem fill_short {p : Piece} (short : ∀ digits, p = .slot digits → digits.length ≤ 4300) :
    Reference.fill values p = .ok (p.text values) := by
  cases p with
  | doubled brace => rfl
  | char c => rfl
  | slot digits =>
    have read : Reference.intOfDigits digits = .ok (slotNumber digits) := if_pos (short digits rfl)
    show (do return argument values (← Reference.intOfDigits digits)) = _
    rw [read]
    rfl

theorem mapM_eq_ok {α β : Type} {f : α → Except Failure β} {g : α → β} {l : List α} (each : ∀ a ∈ l, f a = .ok (g a)) :
    l.mapM f = .ok (l.map g) := by
  rw [mapM_ok_iff, List.forall₂_map_right_iff]
  exact List.forall₂_same.mpr each

theorem render_short (short : ∀ digits, .slot digits ∈ scan decimal template.toList → digits.length ≤ 4300) :
    Reference.render template values = .ok (filled (scan decimal template.toList) values) := by
  have pieces : (scan decimal template.toList).mapM (Reference.fill values) =
      .ok ((scan decimal template.toList).map (Piece.text values)) :=
    mapM_eq_ok fun p member => fill_short fun digits is => short digits (is ▸ member)
  unfold Reference.render
  rw [pieces]
  exact congrArg (Except.ok ∘ String.ofList) List.flatMap_def.symm

theorem short_of_render {text : String} (is : Reference.render template values = .ok text) :
    ∀ digits, .slot digits ∈ scan decimal template.toList → digits.length ≤ 4300 := by
  intro digits member
  obtain ⟨pieces, each, -⟩ := bind_ok_iff.mp is
  obtain ⟨text, fills⟩ := exists_mapM_ok_iff.mp ⟨pieces, each⟩ _ member
  obtain ⟨index, read, -⟩ := bind_ok_iff.mp fills
  unfold Reference.intOfDigits at read
  split at read
  · assumption
  · cases read

theorem mem_slots {digits : List Char} {pieces : List Piece} :
    digits ∈ pieces.filterMap Piece.slot? ↔ .slot digits ∈ pieces := by
  rw [List.mem_filterMap]
  constructor
  · rintro ⟨p, member, is⟩
    cases p with
    | slot digits' =>
      obtain rfl : digits' = digits := Option.some.inj is
      exact member
    | doubled brace => cases is
    | char c => cases is
  · exact fun member => ⟨_, member, rfl⟩

theorem fits_index {digits : List Char} (some : digits ≠ []) (fits : Fits platform digits) :
    Evaluator.slotIndex digits = Option.some (slotNumber digits : ℤ) :=
  (slotIndex_iff some (fun d member => platform.only d (fits.matched d member)) _).mpr ⟨⟨fits.basic, fits.small⟩, rfl⟩

theorem fill_slot {digits : List Char} (read : Evaluator.slotIndex digits = some (slotNumber digits : ℤ)) :
    Evaluator.fill values (.slot digits) = Piece.text values (.slot digits) := by
  show (match Evaluator.slotIndex digits with | none => _ | some index => _) = _
  rw [read]
  show (if ((slotNumber digits : ℕ) : ℤ) < values.length then isolate (values.getD ((slotNumber digits : ℕ) : ℤ).toNat "") else []) =
    argument values (slotNumber digits)
  unfold argument
  rw [Int.toNat_natCast]
  simp only [Nat.cast_lt]

theorem agrees_of_fits (fits : ∀ digits, .slot digits ∈ scan decimal template.toList → Fits platform digits) :
    Agrees platform template values := by
  have reads := reads_scan template.toList
  have same := scan_matched platform.only template.toList fun digits member => (fits digits member).matched
  have short : ∀ digits, .slot digits ∈ scan decimal template.toList → digits.length ≤ 4300 :=
    fun digits member => (fits digits member).short
  have index : ∀ digits, .slot digits ∈ scan decimal template.toList →
      Evaluator.slotIndex digits = some (slotNumber digits : ℤ) :=
    fun digits member => fits_index (reads_slot reads member).1 (fits digits member)
  refine ⟨_, reads, render_short short, ?_, ?_, ?_⟩
  · unfold Evaluator.render filled
    rw [same]
    congr 1
    apply List.flatMap_congr
    intro p member
    cases p with
    | doubled brace => rfl
    | char c => rfl
    | slot digits => exact fill_slot (index digits member)
  · refine ⟨indices (scan decimal template.toList), ?_, fun n => Iff.rfl⟩
    apply mapM_eq_ok
    intro digits member
    exact if_pos (short digits (mem_slots.mp member))
  · intro n
    unfold Evaluator.slotIndices indices
    rw [same, List.mem_filterMap]
    constructor
    · rintro ⟨digits, member, read⟩
      refine ⟨slotNumber digits, List.mem_map_of_mem member, ?_⟩
      rw [index digits (mem_slots.mp member)] at read
      exact (Option.some.inj read).symm
    · rintro ⟨m, member, rfl⟩
      obtain ⟨digits, listed, rfl⟩ := List.mem_map.mp member
      exact ⟨digits, listed, index digits (mem_slots.mp listed)⟩

def Lost (platform : Evaluator.Platform) (digits : List Char) : Prop :=
  digits.all platform.decimal = false ∨ Evaluator.slotIndex digits = none

theorem device_kept {digits : List Char} (some : digits ≠ []) (held : ∀ d ∈ digits, decimal d = true)
    (kept : ¬ Lost platform digits) :
    deviceText platform.decimal values (.slot digits) = Piece.text values (.slot digits) := by
  obtain ⟨matched, read⟩ := not_or.mp kept
  obtain ⟨index, is⟩ := Option.ne_none_iff_exists'.mp read
  obtain ⟨-, rfl⟩ := (slotIndex_iff some held index).mp is
  show (if digits.all platform.decimal then _ else _) = _
  rw [if_pos (by simpa using matched)]
  exact fill_slot is

theorem device_lost {digits : List Char} (lost : Lost platform digits) :
    (digits.all platform.decimal = false ∧ deviceText platform.decimal values (.slot digits) = digits) ∨
      digits.all platform.decimal = true ∧ deviceText platform.decimal values (.slot digits) = ['\x7d'] := by
  cases matched : digits.all platform.decimal with
  | false => exact .inl ⟨rfl, if_neg (by simp [matched])⟩
  | true =>
    refine .inr ⟨rfl, ?_⟩
    have read := lost.resolve_left (by simp [matched])
    show (if digits.all platform.decimal then Evaluator.fill values (.slot digits) else _) = _
    rw [if_pos matched]
    show (match Evaluator.slotIndex digits with | none => ['\x7d'] | some index => _) = _
    rw [read]

theorem argument_unmarked {index : ℕ} (none : weigh (counts fun c => c = firstStrongIsolate) (argument values index) = 0) :
    argument values index = [] := by
  unfold argument isolate at none ⊢
  split
  · rename_i inside
    rw [if_pos inside] at none
    split
    · rfl
    · rename_i filled
      rw [if_neg filled] at none
      have some : 0 < weigh (counts fun c => c = firstStrongIsolate)
          (firstStrongIsolate :: ((values.getD index "").toList ++ [popDirectionalIsolate])) := counts_cons_pos (by simp)
      omega
  · rfl

theorem lost_empty (same : written platform.decimal values template.toList =
      (scan decimal template.toList).flatMap (Piece.text values)) {digits : List Char}
    (member : .slot digits ∈ scan decimal template.toList) (lost : Lost platform digits) :
    Piece.text values (.slot digits) = [] := by
  have reads := reads_scan template.toList
  let marks := counts fun c => c = firstStrongIsolate
  have sums := congrArg (weigh marks) same
  rw [weigh_flatMap, written_weight platform.only rfl rfl] at sums
  have unmarked : ∀ digits', .slot digits' ∈ scan decimal template.toList → Lost platform digits' →
      weigh marks (deviceText platform.decimal values (.slot digits')) = 0 := by
    intro digits' member' lost'
    apply counts_zero
    intro c listed
    rcases @device_lost platform values digits' lost' with ⟨-, is⟩ | ⟨-, is⟩
    · rw [is] at listed
      have digit := (reads_slot reads member').2 c listed
      by_contra held
      obtain rfl : c = firstStrongIsolate := by simpa using held
      rw [decimal_isolate] at digit
      cases digit
    · rw [is] at listed
      obtain rfl := List.mem_singleton.mp listed
      decide
  have le : ∀ p ∈ scan decimal template.toList,
      weigh marks (deviceText platform.decimal values p) ≤ weigh marks (p.text values) := by
    intro p listed
    cases p with
    | doubled brace => exact le_refl _
    | char c => exact le_refl _
    | slot digits' =>
      by_cases lost' : Lost platform digits'
      · rw [unmarked digits' listed lost']
        exact Nat.zero_le _
      · rw [device_kept (reads_slot reads listed).1 (reads_slot reads listed).2 lost']
  have none := terms_eq le sums _ member
  rw [unmarked digits member lost] at none
  exact argument_unmarked none.symm

theorem matched_of_same (same : written platform.decimal values template.toList =
      (scan decimal template.toList).flatMap (Piece.text values)) {digits : List Char}
    (member : .slot digits ∈ scan decimal template.toList) : digits.all platform.decimal = true := by
  have reads := reads_scan template.toList
  have sums := congrArg (weigh (counts decimal)) same
  have open_zero : counts decimal '\x7b' = 0 := if_neg (by simp [decimal_open])
  have close_zero : counts decimal '\x7d' = 0 := if_neg (by simp [decimal_brace])
  rw [weigh_flatMap, written_weight platform.only open_zero close_zero] at sums
  have le : ∀ p ∈ scan decimal template.toList,
      weigh (counts decimal) (p.text values) ≤ weigh (counts decimal) (deviceText platform.decimal values p) := by
    intro p listed
    cases p with
    | doubled brace => exact le_refl _
    | char c => exact le_refl _
    | slot digits' =>
      by_cases lost : Lost platform digits'
      · rw [lost_empty same listed lost]
        exact Nat.zero_le _
      · rw [device_kept (reads_slot reads listed).1 (reads_slot reads listed).2 lost]
  by_contra unmatched
  have lost : Lost platform digits := .inl (by simpa using unmatched)
  have none := terms_eq le sums.symm _ member
  rw [lost_empty same member lost] at none
  rcases @device_lost platform values digits lost with ⟨-, is⟩ | ⟨matched, -⟩
  · rw [is] at none
    obtain ⟨d, others, rfl⟩ := List.exists_cons_of_ne_nil (reads_slot reads member).1
    have some : 0 < weigh (counts decimal) (d :: others) := counts_cons_pos ((reads_slot reads member).2 d List.mem_cons_self)
    have empty : weigh (counts decimal) [] = 0 := rfl
    omega
  · exact unmatched matched

theorem index_of_same (same : written platform.decimal values template.toList =
      (scan decimal template.toList).flatMap (Piece.text values)) {digits : List Char}
    (member : .slot digits ∈ scan decimal template.toList) : Evaluator.slotIndex digits ≠ none := by
  have reads := reads_scan template.toList
  have scans := scan_matched platform.only template.toList
    fun digits member => List.all_eq_true.mp (matched_of_same same member)
  let closes := counts fun c => c = '\x7d'
  have sums := congrArg (weigh closes) same
  unfold written at sums
  rw [scans, weigh_flatMap, weigh_flatMap] at sums
  have filled : ∀ p ∈ scan decimal template.toList, Evaluator.fill values p = deviceText platform.decimal values p := by
    intro p listed
    cases p with
    | doubled brace => rfl
    | char c => rfl
    | slot digits' => exact (if_pos (matched_of_same same listed)).symm
  have le : ∀ p ∈ scan decimal template.toList, weigh closes (p.text values) ≤ weigh closes (Evaluator.fill values p) := by
    intro p listed
    cases p with
    | doubled brace => exact le_refl _
    | char c => exact le_refl _
    | slot digits' =>
      by_cases lost : Lost platform digits'
      · rw [lost_empty same listed lost]
        exact Nat.zero_le _
      · rw [filled _ listed, device_kept (reads_slot reads listed).1 (reads_slot reads listed).2 lost]
  intro unread
  have lost : Lost platform digits := .inr unread
  have none := terms_eq le sums.symm _ member
  rw [lost_empty same member lost, filled _ member] at none
  rcases @device_lost platform values digits lost with ⟨unmatched, -⟩ | ⟨-, is⟩
  · rw [matched_of_same same member] at unmatched
    cases unmatched
  · rw [is] at none
    have some : 0 < weigh closes ['\x7d'] := counts_cons_pos (by simp)
    have empty : weigh closes [] = 0 := rfl
    omega

/-- The engines make one text of a template and its arguments, the one that it says, exactly where every slot's digits
are taken and read by both. -/
theorem agrees_iff (platform : Evaluator.Platform) (template : String) (values : List String) :
    Agrees platform template values ↔ ∀ digits, .slot digits ∈ scan decimal template.toList → Fits platform digits := by
  refine ⟨?_, agrees_of_fits⟩
  rintro ⟨pieces, reads, renders, device, -, -⟩ digits member
  obtain rfl := reads.unique (reads_scan template.toList)
  have same : written platform.decimal values template.toList =
      (scan decimal template.toList).flatMap (Piece.text values) := by
    have texts := congrArg String.toList device
    unfold Evaluator.render filled at texts
    rwa [String.toList_ofList, String.toList_ofList] at texts
  obtain ⟨some, held⟩ := reads_slot reads member
  obtain ⟨index, is⟩ := Option.ne_none_iff_exists'.mp (index_of_same same member)
  obtain ⟨⟨basic, small⟩, -⟩ := (slotIndex_iff some held index).mp is
  exact ⟨List.all_eq_true.mp (matched_of_same same member), basic, short_of_render renders digits member, small⟩

end Agreement

theorem isDigit_decimal (c : Char) (digit : c.isDigit = true) : decimal c = true := by
  rw [decimal, digitOf_digit digit]
  rfl

def jvm : Evaluator.Platform where
  decimal := Char.isDigit
  ascii _ digit := digit
  only := isDigit_decimal

theorem arabic_reads : Reads "\x7b\u0661\x7d".toList [.slot ['\u0661']] := by
  have digit : ∀ d ∈ ['\u0661'], decimal d = true := List.all_eq_true.mp (by decide +kernel)
  exact Reads.slot (List.cons_ne_nil _ _) digit .done

/-- `U+0661` is a digit for one engine and text for the other. -/
theorem arabic_slot : Reference.render "\x7b\u0661\x7d" ["a", "b"] = .ok "\u2068b\u2069" ∧
    Evaluator.render jvm "\x7b\u0661\x7d" ["a", "b"] = "\x7b\u0661\x7d" ∧
      ¬ Agrees jvm "\x7b\u0661\x7d" ["a", "b"] := by
  have device : Evaluator.render jvm "\x7b\u0661\x7d" ["a", "b"] = "\x7b\u0661\x7d" := by decide +kernel
  refine ⟨by rfl, device, ?_⟩
  rintro ⟨pieces, reads, -, same, -, -⟩
  obtain rfl := reads.unique arabic_reads
  rw [device] at same
  revert same
  decide +kernel

end Interpolation

end DataCollectionLab.Form
