import DataCollectionLab.Form.Totality
import DataCollectionLab.Lib.Except

/-!
The arguments on which an operator or a function of the reference engine raises something else than the overflow
error, of any values: an integer may have left the 64 bits on its way here.
-/

namespace DataCollectionLab.Form

open Lib

namespace Reference

def Raises {α : Type} : Except Failure α → Prop
  | .ok _ => False
  | .error failure => failure ≠ .overflow

section Sequencing

variable {α β : Type}

@[simp] theorem not_raises_ok (a : α) : ¬Raises (.ok a : Except Failure α) := id

@[simp] theorem raises_raised (name : String) : Raises (.error (.raised name) : Except Failure α) := Failure.noConfusion

@[simp] theorem raises_compile (message : String) : Raises (.error (.compile message) : Except Failure α) :=
  Failure.noConfusion

theorem raises_bind {x : Except Failure α} {f : α → Except Failure β} :
    Raises (x >>= f) ↔ Raises x ∨ ∃ a, x = .ok a ∧ Raises (f a) := by
  cases x with
  | error failure =>
    show failure ≠ .overflow ↔ failure ≠ .overflow ∨ _
    simp
  | ok a =>
    show Raises (f a) ↔ _
    simp

theorem raises_map {x : Except Failure α} {f : α → β} : Raises (do return f (← x)) ↔ Raises x := by
  cases x with
  | error failure => exact Iff.rfl
  | ok a => exact Iff.rfl

theorem raises_mapM {f : α → Except Failure β} {l : List α} :
    Raises (l.mapM f) ↔
      ∃ before a after values, l = before ++ a :: after ∧ before.mapM f = .ok values ∧ Raises (f a) := by
  induction l with
  | nil => simp [List.mapM_nil, pure, Except.pure]
  | cons a l ih =>
    rw [List.mapM_cons, raises_bind]
    constructor
    · rintro (first | ⟨b, given, later⟩)
      · exact ⟨[], a, l, [], rfl, rfl, first⟩
      · rw [raises_map, ih] at later
        obtain ⟨before, a', after, values, rfl, evaluated, raises⟩ := later
        refine ⟨a :: before, a', after, b :: values, rfl, ?_, raises⟩
        rw [List.mapM_cons, given, evaluated]
        rfl
    · rintro ⟨before, a', after, values, same, evaluated, raises⟩
      cases before with
      | nil =>
        obtain ⟨rfl, rfl⟩ := List.cons.inj same
        exact Or.inl raises
      | cons a'' before =>
        obtain ⟨rfl, rfl⟩ := List.cons.inj same
        rw [List.mapM_cons] at evaluated
        obtain ⟨b, given, rest⟩ := bind_ok_iff.mp evaluated
        obtain ⟨others, evaluated, -⟩ := bind_ok_iff.mp rest
        exact Or.inr ⟨b, given, raises_map.mpr (ih.mpr ⟨before, a', after, others, rfl, evaluated, raises⟩)⟩

end Sequencing

section Operators

def NoDouble : Num → Prop
  | .int n => (Binary64.ofInt n).isFinite = false
  | .float _ => False

def Mixed : Num → Num → Prop
  | .int _, .int _ => False
  | x, y => NoDouble x ∨ NoDouble y

def DivisionRaises : Num → Num → Prop
  | .int x, .int y => (Binary64.round (x / y : ℚ)).isFinite = false
  | x, y => Mixed x y

def QuotientRaises : Num → Num → Prop
  | .int _, .int _ => False
  | x, y => Mixed x y ∨ (floatFloorDiv x.double y.double).isFinite = false

def BinaryRaises (op : Operator) (a b : Value) : Prop :=
  ∃ x y, number a = some x ∧ number b = some y ∧
    match op with
    | .add | .sub | .mul => Mixed x y
    | .mod => isZero y = false ∧ Mixed x y
    | .div => isZero y = false ∧ DivisionRaises x y
    | .idiv => isZero y = false ∧ QuotientRaises x y
    | _ => False

def OpRaises : Operator → List Value → Prop
  | .and, _ | .or, _ => False
  | .not, operands | .neg, operands => operands = []
  | op, a :: b :: _ => BinaryRaises op a b
  | _, _ => True

theorem toFloat_cases (x : Num) : NoDouble x ∧ Raises (toFloat x) ∨ ¬NoDouble x ∧ toFloat x = .ok x.double := by
  cases x with
  | float d => exact Or.inr ⟨id, rfl⟩
  | int n =>
    simp only [NoDouble, toFloat, Num.double]
    cases double : Binary64.ofInt n with
    | finite q => exact Or.inr ⟨by simp [Binary64.isFinite], rfl⟩
    | inf negative => exact Or.inl ⟨rfl, raises_raised _⟩
    | nan => exact absurd double (Binary64.round_ne_nan _)

theorem raises_toFloat {x : Num} : Raises (toFloat x) ↔ NoDouble x := by
  rcases toFloat_cases x with ⟨none_, raises⟩ | ⟨has, float⟩
  · exact iff_of_true raises none_
  · rw [float]
    exact iff_of_false id has

theorem raises_with_double {α : Type} {x : Num} {f : Binary64 → Except Failure α} :
    Raises (toFloat x >>= f) ↔ NoDouble x ∨ Raises (f x.double) := by
  rcases toFloat_cases x with ⟨none_, raises⟩ | ⟨has, float⟩
  · exact iff_of_true (raises_bind.mpr (Or.inl raises)) (Or.inl none_)
  · rw [float]
    exact (or_iff_right has).symm

theorem noDouble_isFinite {x : Num} (none_ : NoDouble x) : x.double.isFinite = false := by
  cases x with
  | int n => exact none_
  | float d => exact none_.elim

theorem raises_intOfFloat {d : Binary64} : Raises (intOfFloat d) ↔ d.isFinite = false := by
  cases d with
  | finite q => exact iff_of_false id Bool.noConfusion
  | inf negative => exact iff_of_true (raises_raised _) rfl
  | nan => exact iff_of_true (raises_raised _) rfl

theorem raises_checked (n : ℤ) : ¬Raises (checked n) := by
  unfold checked
  split
  · exact id
  · exact fun raises => raises rfl

theorem raises_doubles {α : Type} {x y : Num} {f : Binary64 → Binary64 → Except Failure α} :
    Raises (do f (← toFloat x) (← toFloat y)) ↔ (NoDouble x ∨ NoDouble y) ∨ Raises (f x.double y.double) := by
  rw [raises_with_double, raises_with_double, or_assoc]

theorem raises_arith (ints : ℤ → ℤ → ℤ) (floats : Binary64 → Binary64 → Binary64) (a b : Value) :
    Raises (arith ints floats a b) ↔ ∃ x y, number a = some x ∧ number b = some y ∧ Mixed x y := by
  unfold arith
  cases isA : number a with
  | none => simp
  | some x =>
    cases isB : number b with
    | none => cases x <;> simp
    | some y =>
      have floated : Raises (do
          let x ← toFloat x
          let y ← toFloat y
          return Value.decimal (floats x y)) ↔ NoDouble x ∨ NoDouble y :=
        (raises_doubles (f := fun x y => .ok (Value.decimal (floats x y)))).trans (or_iff_left id)
      cases x with
      | float d => simpa [Mixed] using floated
      | int m =>
        cases y with
        | float d => simpa [Mixed] using floated
        | int n => simpa [Mixed] using raises_checked _

theorem raises_mod (a b : Value) :
    Raises (mod a b) ↔ ∃ x y, number a = some x ∧ number b = some y ∧ isZero y = false ∧ Mixed x y := by
  unfold mod
  cases isA : number a with
  | none => simp
  | some x =>
    cases isB : number b with
    | none => simp
    | some y =>
      dsimp only
      have floated : Raises (do return Value.decimal (floatRem (← toFloat x) (← toFloat y))) ↔
          NoDouble x ∨ NoDouble y :=
        (raises_doubles (f := fun x y => .ok (Value.decimal (floatRem x y)))).trans (or_iff_left id)
      cases zero : isZero y with
      | true => simp [zero]
      | false =>
        simp only [Bool.false_eq_true, if_false, Option.some.injEq, exists_and_left, exists_eq_left', zero, true_and]
        cases x with
        | float d => exact floated
        | int m =>
          cases y with
          | float d => exact floated
          | int n => exact iff_of_false id id

theorem raises_trueDiv {x y : ℤ} : Raises (trueDiv x y) ↔ (Binary64.round (x / y : ℚ)).isFinite = false := by
  unfold trueDiv
  cases rounded : Binary64.round (x / y : ℚ) with
  | finite q => exact iff_of_false id Bool.noConfusion
  | inf negative => exact iff_of_true (raises_raised _) rfl
  | nan => exact absurd rounded (Binary64.round_ne_nan _)

theorem raises_div (a b : Value) :
    Raises (div a b) ↔ ∃ x y, number a = some x ∧ number b = some y ∧ isZero y = false ∧ DivisionRaises x y := by
  unfold div
  cases isA : number a with
  | none => simp
  | some x =>
    cases isB : number b with
    | none => simp
    | some y =>
      dsimp only
      have floated : Raises (do return Value.decimal ((← toFloat x).div (← toFloat y))) ↔
          NoDouble x ∨ NoDouble y :=
        (raises_doubles (f := fun x y => .ok (Value.decimal (x.div y)))).trans (or_iff_left id)
      cases zero : isZero y with
      | true => simp [zero]
      | false =>
        simp only [Bool.false_eq_true, if_false, Option.some.injEq, exists_and_left, exists_eq_left', zero, true_and]
        cases x with
        | float d => exact floated
        | int m =>
          cases y with
          | float d => exact floated
          | int n => exact raises_map.trans raises_trueDiv

theorem raises_idiv (a b : Value) :
    Raises (idiv a b) ↔ ∃ x y, number a = some x ∧ number b = some y ∧ isZero y = false ∧ QuotientRaises x y := by
  unfold idiv
  cases isA : number a with
  | none => simp
  | some x =>
    cases isB : number b with
    | none => simp
    | some y =>
      dsimp only
      have floated : Raises (do return Value.integer (← intOfFloat (floatFloorDiv (← toFloat x) (← toFloat y)))) ↔
          (NoDouble x ∨ NoDouble y) ∨ (floatFloorDiv x.double y.double).isFinite = false := by
        have both := @raises_doubles Value x y fun x y => do return .integer (← intOfFloat (floatFloorDiv x y))
        exact both.trans (or_congr_right (raises_map.trans raises_intOfFloat))
      cases zero : isZero y with
      | true => simp [zero]
      | false =>
        simp only [Bool.false_eq_true, if_false, Option.some.injEq, exists_and_left, exists_eq_left', zero, true_and]
        cases x with
        | float d => exact floated
        | int m =>
          cases y with
          | float d => exact floated
          | int n => exact iff_of_false id id

theorem raises_binary {op : Operator} (two : op ∉ [Operator.cond, .and, .or, .not, .neg]) (a b : Value) :
    Raises (binary op a b) ↔ BinaryRaises op a b := by
  cases op with
  | add => exact raises_arith _ _ a b
  | sub => exact raises_arith _ _ a b
  | mul => exact raises_arith _ _ a b
  | mod => exact raises_mod a b
  | div => exact raises_div a b
  | idiv => exact raises_idiv a b
  | cond => exact absurd (by decide) two
  | and => exact absurd (by decide) two
  | or => exact absurd (by decide) two
  | not => exact absurd (by decide) two
  | neg => exact absurd (by decide) two
  | _ => exact iff_of_false id (by simp [BinaryRaises])

theorem raises_operate {op : Operator} (other : op ≠ .cond) (operands : List Value) :
    Raises (operate op operands) ↔ OpRaises op operands := by
  have two (two : op ∉ [Operator.cond, .and, .or, .not, .neg])
      (is : ∀ a b rest, operate op (a :: b :: rest) = binary op a b)
      (few : ∀ rest, rest.length < 2 → operate op rest = .error (.raised "IndexError"))
      (raises : ∀ a b rest, OpRaises op (a :: b :: rest) = BinaryRaises op a b)
      (always : ∀ rest, rest.length < 2 → OpRaises op rest) :
      Raises (operate op operands) ↔ OpRaises op operands := by
    match operands with
    | [] => exact iff_of_true (few [] (by simp) ▸ raises_raised _) (always [] (by simp))
    | [a] => exact iff_of_true (few [a] (by simp) ▸ raises_raised _) (always [a] (by simp))
    | a :: b :: rest =>
      rw [is, raises]
      exact raises_binary two a b
  have short {p : List Value → Prop} (none_ : p []) (one : ∀ a, p [a]) : ∀ rest : List Value, rest.length < 2 → p rest
    | [], _ => none_
    | [a], _ => one a
    | _ :: _ :: _, long => absurd long (by simp)
  cases op with
  | cond => exact absurd rfl other
  | and => exact iff_of_false id id
  | or => exact iff_of_false id id
  | not => cases operands <;> simp [operate, OpRaises]
  | neg => cases operands <;> simp [operate, OpRaises]
  | _ => exact two (by decide) (fun _ _ _ => rfl) (short rfl fun _ => rfl) (fun _ _ _ => rfl) (short trivial fun _ => trivial)

end Operators

section Functions

/-- A sum of integers, and then of doubles: it raises where the integers before the first double have none, or a later
integer. -/
def SumRaises (total : ℤ) : List Num → Prop
  | [] => False
  | .int n :: rest => SumRaises (total + n) rest
  | .float _ :: rest => NoDouble (.int total) ∨ ∃ x ∈ rest, NoDouble x

theorem not_noDouble {n : ℤ} (range : inRange n = true) : ¬NoDouble (.int n) := by
  intro none_
  rw [NoDouble, ofInt_finite range] at none_
  cases none_

theorem plus_float (total : Binary64) (x : Num) :
    plus (.float total) x = (do return .float (total.add (← toFloat x))) := by
  cases x <;> rfl

theorem raises_sumAny_float (total : Binary64) (rest : List Num) :
    Raises (sumAny (.float total) rest) ↔ ∃ x ∈ rest, NoDouble x := by
  induction rest generalizing total with
  | nil => simp [sumAny]
  | cons x rest ih =>
    rw [sumAny, plus_float, raises_bind, List.exists_mem_cons_iff, raises_map, raises_toFloat]
    rcases toFloat_cases x with ⟨none_, -⟩ | ⟨has, float⟩
    · simp [none_]
    · rw [float]
      refine or_congr_right ⟨?_, fun later => ⟨_, rfl, (ih _).mpr later⟩⟩
      rintro ⟨y, is, raises⟩
      cases is
      exact (ih _).mp raises

theorem raises_sumFloats (total lost : Binary64) (rest : List Num) :
    Raises (sumFloats total lost rest) ↔ ∃ x ∈ rest, NoDouble x := by
  induction rest generalizing total lost with
  | nil => simp [sumFloats]
  | cons x rest ih =>
    rw [List.exists_mem_cons_iff]
    cases x with
    | float d =>
      rw [sumFloats]
      exact (ih _ _).trans (or_iff_right id).symm
    | int n =>
      rw [sumFloats]
      split
      · rename_i range
        exact (ih _ _).trans (or_iff_right (not_noDouble range)).symm
      · exact (raises_sumAny_float _ (.int n :: rest)).trans (List.exists_mem_cons_iff _ _ _)

theorem raises_sumAny (total : ℤ) (rest : List Num) : Raises (sumAny (.int total) rest) ↔ SumRaises total rest := by
  induction rest generalizing total with
  | nil => simp [sumAny, SumRaises]
  | cons x rest ih =>
    cases x with
    | int n => exact ih (total + n)
    | float d =>
      rw [sumAny, SumRaises]
      have added : plus (.int total) (.float d) = (do return .float ((← toFloat (.int total)).add d)) := rfl
      rw [added, raises_bind, raises_map, raises_toFloat]
      rcases toFloat_cases (.int total) with ⟨none_, -⟩ | ⟨has, float⟩
      · simp [none_]
      · rw [float]
        refine or_congr_right ⟨?_, fun later => ⟨_, rfl, (raises_sumAny_float _ _).mpr later⟩⟩
        rintro ⟨y, is, raises⟩
        cases is
        exact (raises_sumAny_float _ _).mp raises

theorem raises_sumInts {total : ℤ} (range : inRange total = true) (rest : List Num) :
    Raises (sumInts total rest) ↔ SumRaises total rest := by
  induction rest generalizing total with
  | nil => exact iff_of_false id id
  | cons x rest ih =>
    cases x with
    | int n =>
      rw [sumInts, SumRaises]
      split
      · rename_i both
        exact ih both.2
      · exact raises_sumAny (total + n) rest
    | float d =>
      rw [sumInts, SumRaises, raises_sumFloats]
      exact (or_iff_right (not_noDouble range)).symm

theorem raises_sum (a : Value) : Raises (sum a) ↔ SumRaises 0 (numbers a) :=
  raises_map.trans (raises_sumInts (by decide) _)

theorem isFinite_mul {x : Binary64} (infinite : x.isFinite = false) (y : Binary64) : (x.mul y).isFinite = false := by
  cases x with
  | finite q => cases infinite
  | nan => cases y <;> rfl
  | inf negative =>
    cases y with
    | finite q =>
      simp only [Binary64.mul]
      split <;> rfl
    | inf negative' => rfl
    | nan => rfl

theorem halved_isFinite {x : Num} (infinite : x.double.isFinite = false) : (halved x).isFinite = false := by
  unfold halved
  cases double : x.double with
  | finite q =>
    rw [double] at infinite
    cases infinite
  | inf negative => split <;> rfl
  | nan => split <;> rfl

theorem raises_roundHalf (x : Num) : Raises (roundHalf x) ↔ (halved x).isFinite = false := by
  rcases toFloat_cases x with ⟨none_, raises⟩ | ⟨has, float⟩
  · exact iff_of_true (raises_bind.mpr (Or.inl raises)) (halved_isFinite (noDouble_isFinite none_))
  · rw [roundHalf_eq float]
    exact raises_intOfFloat

theorem times_cases (x : Num) {digits : ℤ} (high : |digits| ≤ maxRoundDigits) :
    Raises (times x (power digits)) ∧ (halved (scaled x digits)).isFinite = false ∨
      times x (power digits) = .ok (scaled x digits) := by
  have right := power_double high
  unfold times scaled
  cases x with
  | float d =>
    cases is : power digits with
    | float y => exact Or.inr rfl
    | int n =>
      rw [is] at right
      simp only [right]
      exact Or.inr rfl
  | int m =>
    cases is : power digits with
    | int n => exact Or.inr rfl
    | float y =>
      dsimp only
      rcases toFloat_cases (.int m) with ⟨none_, raises⟩ | ⟨has, float⟩
      · refine Or.inl ⟨raises_bind.mpr (Or.inl raises), halved_isFinite ?_⟩
        exact isFinite_mul (noDouble_isFinite none_) _
      · rw [float]
        exact Or.inr rfl

theorem raises_rounded (x : Num) (digits : ℤ) :
    Raises (do
        let rounded ← roundHalf (scaled x digits)
        if 0 < digits then return Value.decimal (← trueDiv rounded (10 ^ digits.toNat)) else return .integer rounded) ↔
      (halved (scaled x digits)).isFinite = false := by
  rw [raises_bind, raises_roundHalf]
  refine or_iff_left ?_
  rintro ⟨n, given, raises⟩
  by_cases places : 0 < digits
  · rw [if_pos places, raises_map] at raises
    have float : toFloat (scaled x digits) = .ok (scaled x digits).double := by
      rcases toFloat_cases (scaled x digits) with ⟨none_, raises'⟩ | ⟨-, float⟩
      · have both : Raises (roundHalf (scaled x digits)) := raises_bind.mpr (Or.inl raises')
        rw [given] at both
        exact both.elim
      · exact float
    rw [roundHalf_eq float] at given
    cases is : halved (scaled x digits) with
    | inf negative =>
      rw [is] at given
      cases given
    | nan =>
      rw [is] at given
      cases given
    | finite q =>
      obtain ⟨m, rfl, size⟩ := halved_limited is
      rw [is, intOfFloat, truncated_intCast, Except.ok.injEq] at given
      subst given
      obtain ⟨d, divided⟩ := trueDiv_places size places
      rw [divided] at raises
      exact raises
  · rw [if_neg places] at raises
    exact raises

theorem round_eq_digits (a : Value) (others : List Value) {x : Num} (isA : number a = some x) :
    round (a :: others) = (roundDigits others).elim (.ok .null) fun digits => do
      let rounded ← roundHalf (← times x (power digits))
      if 0 < digits then return .decimal (← trueDiv rounded (10 ^ digits.toNat)) else return .integer rounded := by
  simp only [round, isA]
  unfold roundDigits
  cases others with
  | nil => rfl
  | cons b rest =>
    cases b with
    | null => rfl
    | _ =>
      dsimp only
      split
      · rename_i refused
        rw [refused]
        rfl
      · rename_i digits given
        rw [given]
        rfl

theorem raises_round (a : Value) (others : List Value) :
    Raises (round (a :: others)) ↔
      ∃ x digits, number a = some x ∧ roundDigits others = some digits ∧ (halved (scaled x digits)).isFinite = false := by
  cases isA : number a with
  | none => simp [round, isA]
  | some x =>
    rw [round_eq_digits a others isA]
    cases isB : roundDigits others with
    | none => simp
    | some digits =>
      have settled : Raises (do
          let rounded ← roundHalf (← times x (power digits))
          if 0 < digits then return Value.decimal (← trueDiv rounded (10 ^ digits.toNat)) else return .integer rounded) ↔
          (halved (scaled x digits)).isFinite = false := by
        rcases times_cases x (roundDigits_le isB) with ⟨raises, infinite⟩ | product
        · exact iff_of_true (raises_bind.mpr (Or.inl raises)) infinite
        · rw [product]
          exact raises_rounded x digits
      simpa using settled

theorem raises_asNumber (a : Value) : Raises (asNumber a) ↔ ∃ n, a = .integer n ∧ NoDouble (.int n) := by
  cases a with
  | integer n => exact raises_map.trans (raises_toFloat.trans (by simp))
  | _ => exact iff_of_false id (by simp)

theorem asNumber_cases (a : Value) :
    Raises (asNumber a) ∧ (∃ d, reading a = some d ∧ d.isFinite = false) ∨ asNumber a = .ok (reading a) := by
  cases a with
  | integer n =>
    rcases toFloat_cases (.int n) with ⟨none_, raises⟩ | ⟨-, float⟩
    · exact Or.inl ⟨raises_map.mpr raises, _, rfl, none_⟩
    · refine Or.inr ?_
      simp only [asNumber, float]
      rfl
  | _ => exact Or.inr rfl

theorem raises_castInt (a : Value) : Raises (castInt a) ↔ ∃ d, reading a = some d ∧ d.isFinite = false := by
  unfold castInt
  rcases asNumber_cases a with ⟨raises, infinite⟩ | number
  · exact iff_of_true (raises_bind.mpr (Or.inl raises)) infinite
  · rw [number]
    cases reading a with
    | none => exact iff_of_false id (by simp)
    | some d =>
      have cut : Raises (do return Value.integer (← intOfFloat d)) ↔ d.isFinite = false := raises_map.trans raises_intOfFloat
      exact cut.trans (by simp)

theorem raises_castDec (a : Value) : Raises (castDec a) ↔ ∃ n, a = .integer n ∧ NoDouble (.int n) := by
  unfold castDec
  rw [raises_bind, raises_asNumber]
  refine or_iff_left ?_
  rintro ⟨d, -, raises⟩
  cases d <;> exact raises

theorem raises_sqrt (lib : Library) (a : Value) :
    Raises (sqrt lib a) ↔ ∃ x, number a = some x ∧ Binary64.lt x.exact (.finite 0) = false ∧ NoDouble x := by
  unfold sqrt
  cases number a with
  | none => simp
  | some x =>
    dsimp only
    cases below : Binary64.lt x.exact (.finite 0) with
    | true => exact iff_of_false id (by simp [below])
    | false =>
      have root : Raises (do return Value.decimal (lib.sqrt (← toFloat x))) ↔ NoDouble x := raises_map.trans raises_toFloat
      exact root.trans (by simp [below])

theorem raises_bounded {f : Binary64 → Binary64} {d : Binary64} :
    Raises (bounded f d) ↔ ∃ negative, d = .inf negative := by
  cases d with
  | inf negative => exact iff_of_true (raises_raised _) ⟨negative, rfl⟩
  | finite q => exact iff_of_false id (by simp)
  | nan => exact iff_of_false id (by simp)

theorem noDouble_inf {x : Num} (none_ : NoDouble x) : ∃ negative, x.double = .inf negative := by
  cases x with
  | float d => exact none_.elim
  | int n =>
    cases double : Binary64.ofInt n with
    | finite q =>
      rw [NoDouble, double] at none_
      cases none_
    | inf negative => exact ⟨negative, double⟩
    | nan => exact absurd double (Binary64.round_ne_nan _)

theorem raises_trig {fn : Binary64 → Except Failure Binary64} {a : Value} :
    Raises (trig fn a) ↔ ∃ x, number a = some x ∧ (NoDouble x ∨ Raises (fn x.double)) := by
  unfold trig
  cases number a with
  | none => simp
  | some x =>
    simp only [Option.some.injEq, exists_eq_left']
    rw [raises_with_double, raises_map]

theorem raises_bounded_trig {f : Binary64 → Binary64} {a : Value} :
    Raises (trig (bounded f) a) ↔ ∃ x negative, number a = some x ∧ x.double = .inf negative := by
  rw [raises_trig]
  constructor
  · rintro ⟨x, is, none_ | raises⟩
    · obtain ⟨negative, infinite⟩ := noDouble_inf none_
      exact ⟨x, negative, is, infinite⟩
    · obtain ⟨negative, infinite⟩ := raises_bounded.mp raises
      exact ⟨x, negative, is, infinite⟩
  · rintro ⟨x, negative, is, infinite⟩
    exact ⟨x, is, Or.inr (raises_bounded.mpr ⟨negative, infinite⟩)⟩

theorem raises_regex (lib : Library) (a b : Value) :
    Raises (regex lib a b) ↔
      ∃ subject pattern, text a = some subject ∧ text b = some pattern ∧ SearchBreaks lib subject pattern := by
  unfold regex
  cases text a with
  | none => simp
  | some subject =>
    cases text b with
    | none => simp
    | some pattern =>
      dsimp only
      split
      · rename_i refused
        simp [SearchBreaks, refused]
      · rename_i permitted
        cases found : lib.search pattern subject with
        | error failure =>
          show failure ≠ .overflow ↔ _
          simp [SearchBreaks, permitted, found]
        | ok answer =>
          refine iff_of_false ?_ (by simp [SearchBreaks, found])
          cases answer <;> exact id

section Distance

variable (lib : Library)

def radians (d : Binary64) : Binary64 := d.mul lib.degree

def halfBetween (d d' : Binary64) : Binary64 := ((radians lib d').sub (radians lib d)).div (.finite 2)

def haversine (lat lon lat' lon' : Binary64) : Binary64 :=
  let s := lib.sin (halfBetween lib lat lat')
  let t := lib.sin (halfBetween lib lon lon')
  (s.mul s).add (((lib.cos (radians lib lat)).mul (lib.cos (radians lib lat'))).mul (t.mul t))

def DistanceRaises : Value → Value → Prop
  | .geoPoint lat lon _ _, .geoPoint lat' lon' _ _ =>
    (∃ angle ∈ [halfBetween lib lat lat', radians lib lat, radians lib lat', halfBetween lib lon lon'],
      ∃ negative, angle = .inf negative) ∨
      Binary64.lt (haversine lib lat lon lat' lon') (.finite 0) = true ∨
      Binary64.lt (.finite 1) (lib.sqrt (haversine lib lat lon lat' lon')).abs = true
  | _, _ => False

theorem raises_with_bounded {α : Type} {f : Binary64 → Binary64} {d : Binary64} {g : Binary64 → Except Failure α} :
    Raises (bounded f d >>= g) ↔ (∃ negative, d = .inf negative) ∨ Raises (g (f d)) := by
  cases d with
  | inf negative => exact iff_of_true (raises_raised _) (Or.inl ⟨negative, rfl⟩)
  | finite q => exact (or_iff_right (by simp)).symm
  | nan => exact (or_iff_right (by simp)).symm

theorem raises_asin {d : Binary64} : Raises (asin lib d) ↔ Binary64.lt (.finite 1) d.abs = true := by
  unfold asin
  split
  · rename_i outside
    exact iff_of_true (raises_raised _) outside
  · rename_i inside
    exact iff_of_false id inside

theorem raises_distance (a b : Value) : Raises (distance lib a b) ↔ DistanceRaises lib a b := by
  cases a with
  | geoPoint lat lon alt accuracy =>
    cases b with
    | geoPoint lat' lon' alt' accuracy' =>
      unfold distance DistanceRaises
      dsimp only
      rw [raises_with_bounded, raises_with_bounded, raises_with_bounded, raises_with_bounded]
      simp only [List.mem_cons, List.not_mem_nil, or_false, exists_eq_or_imp, exists_eq_left, or_assoc]
      refine or_congr_right (or_congr_right (or_congr_right (or_congr_right ?_)))
      show Raises (if Binary64.lt (haversine lib lat lon lat' lon') (.finite 0) = true then _ else _) ↔ _
      split
      · rename_i negative
        exact iff_of_true (raises_raised _) (Or.inl negative)
      · rename_i positive
        exact raises_map.trans ((raises_asin lib).trans (or_iff_right positive).symm)
    | _ => exact iff_of_false id id
  | _ => exact iff_of_false id id

end Distance

def CallRaises (lib : Library) (fn : String) (args : List Value) : Prop :=
  match fn, args with
  | "sum", [a] => SumRaises 0 (numbers a)
  | "regex", [a, b] =>
    ∃ subject pattern, text a = some subject ∧ text b = some pattern ∧ SearchBreaks lib subject pattern
  | "round", a :: others =>
    ∃ x digits, number a = some x ∧ roundDigits others = some digits ∧ (halved (scaled x digits)).isFinite = false
  | "int", [a] => ∃ d, reading a = some d ∧ d.isFinite = false
  | "dec", [a] => ∃ n, a = .integer n ∧ NoDouble (.int n)
  | "distance", [a, b] => DistanceRaises lib a b
  | "sqrt", [a] => ∃ x, number a = some x ∧ Binary64.lt x.exact (.finite 0) = false ∧ NoDouble x
  | "sin", [a] | "cos", [a] | "tan", [a] => ∃ x negative, number a = some x ∧ x.double = .inf negative
  | "atan", [a] => ∃ x, number a = some x ∧ NoDouble x
  | _, _ => False

theorem raises_one {f : Value → Except Failure Value} {args : List Value} {breaks : List Value → Prop}
    (arity : 1 ≤ args.length ∧ args.length ≤ 1) (each : ∀ a, Raises (f a) ↔ breaks [a]) :
    Raises (one f args) ↔ breaks args := by
  obtain ⟨a, rfl⟩ := List.length_eq_one_iff.mp (le_antisymm arity.2 arity.1)
  exact each a

theorem raises_two {f : Value → Value → Except Failure Value} {args : List Value} {breaks : List Value → Prop}
    (arity : 2 ≤ args.length ∧ args.length ≤ 2) (each : ∀ a b, Raises (f a b) ↔ breaks [a, b]) :
    Raises (two f args) ↔ breaks args := by
  obtain ⟨a, b, rfl⟩ := List.length_eq_two.mp (le_antisymm arity.2 arity.1)
  exact each a b

theorem raises_impl {lib : Library} {ctx : Context} {fn : String} {impl : List Value → Except Failure Value}
    {least most : ℕ} (entry : (fn, impl, least, most) ∈ table lib ctx) {args : List Value}
    (arity : least ≤ args.length ∧ args.length ≤ most) : Raises (impl args) ↔ CallRaises lib fn args := by
  unfold table at entry
  simp only [List.mem_cons, List.not_mem_nil, or_false, Prod.mk.injEq] at entry
  rcases entry with h | h | h | h | h | h | h | h | h | h | h | h | h | h | h | h | h | h | h | h | h | h |
    h | h | h | h | h | h | h | h | h | h | h | h <;>
    obtain ⟨rfl, rfl, rfl, rfl⟩ := h
  · exact raises_one arity fun a => iff_of_false id id
  · exact raises_one arity raises_sum
  · exact raises_one arity fun a => iff_of_false id id
  · exact raises_one arity fun a => iff_of_false id id
  · exact raises_one arity fun a => iff_of_false id id
  · exact iff_of_false id id
  · exact iff_of_false id id
  · exact iff_of_false id id
  · exact iff_of_false id id
  · exact raises_two arity fun a b => iff_of_false id id
  · exact raises_two arity fun a b => iff_of_false id id
  · exact raises_one arity fun a => iff_of_false id id
  · exact raises_one arity fun a => iff_of_false id id
  · exact raises_one arity fun a => iff_of_false id id
  · exact raises_one arity fun a => iff_of_false id id
  · exact iff_of_false id id
  · exact iff_of_false id id
  · exact raises_two arity fun a b => iff_of_false id id
  · exact raises_two arity fun a b => iff_of_false id id
  · exact raises_two arity fun a b => iff_of_false id id
  · exact raises_two arity (raises_regex lib)
  · cases args with
    | nil => exact absurd arity.1 (by decide)
    | cons a others => exact raises_round a others
  · exact raises_one arity raises_castInt
  · exact raises_one arity raises_castDec
  · exact raises_one arity fun a => iff_of_false id id
  · exact raises_two arity (raises_distance lib)
  · match args, arity with
    | [a, b, c, d], _ => exact iff_of_false id id
  · exact raises_one arity (raises_sqrt lib)
  · exact raises_one arity fun a => raises_bounded_trig
  · exact raises_one arity fun a => raises_bounded_trig
  · exact raises_one arity fun a => raises_bounded_trig
  · exact raises_one arity fun a => raises_trig.trans (exists_congr fun x => and_congr_right fun _ => or_iff_left id)
  · exact raises_one arity fun a => iff_of_false id id
  · exact raises_one arity fun a => iff_of_false id id

end Functions

end Reference

end DataCollectionLab.Form
