import Mathlib.Data.List.DropRight
import Mathlib.Tactic.Linarith

/-!
Decimal texts of doubles. A platform prints the shortest digits that read back; where it puts the point and the exponent
is its own layout, and both canonical writers lay the digits out anew.
-/

namespace DataCollectionLab.Crypto

/-- The shortest digits of a positive double: `d.ddd × 10^exponent`. -/
structure Shortest where
  digits : List Char
  exponent : ℤ
  decimal : ∀ c ∈ digits, c.isDigit = true
  nonempty : digits ≠ []
  first : digits.head? ≠ some '0'
  last : digits.getLast? ≠ some '0'

def zeros (n : ℕ) : List Char := List.replicate n '0'

/-- `toInt`, of a text that no `Int` overflows. -/
def toInt : List Char → Option ℤ
  | '-' :: digits => (natural digits).map fun n : ℕ => -(n : ℤ)
  | '+' :: digits => (natural digits).map fun n : ℕ => (n : ℤ)
  | digits => (natural digits).map fun n : ℕ => (n : ℤ)
where
  natural (digits : List Char) : Option ℕ :=
    if digits = [] ∨ digits.any (!·.isDigit) then none else some (Nat.ofDigitChars 10 digits 0)

/-- A way to write the digits: zeros around them, perhaps a point, perhaps an exponent. -/
structure Layout (s : Shortest) where
  before : ℕ
  after : ℕ
  /-- How many digits stand before the point. -/
  point : Option ℕ
  /-- The letter, and the text behind it. -/
  power : Option (Char × List Char)
  scale : ℤ
  inside : ∀ p ∈ point, p ≤ before + s.digits.length + after
  letter : ∀ x ∈ power, x.1 = 'e' ∨ x.1 = 'E'
  reads : (power = none → scale = 0) ∧ ∀ x ∈ power, toInt x.2 = some scale
  placed : s.exponent = (point.getD (before + s.digits.length + after) : ℕ) - 1 - before + scale

namespace Layout

variable {s : Shortest} (layout : Layout s)

def all : List Char := zeros layout.before ++ s.digits ++ zeros layout.after

def mantissa : List Char :=
  match layout.point with
  | none => layout.all
  | some p => layout.all.take p ++ '.' :: layout.all.drop p

def text : List Char :=
  layout.mantissa ++ match layout.power with
    | none => []
    | some (letter, scale) => letter :: scale

end Layout

/-- `{:02d}` -/
def pad2 (n : ℕ) : List Char := (Nat.toDigits 10 n).leftpad 2 '0'

/-- `float_repr` of the digits, by the place of the decimal point. -/
def floatRepr (s : Shortest) : List Char :=
  let decpt := s.exponent + 1
  if decpt ≤ -4 ∨ 16 < decpt then
    s.digits.take 1 ++ (if 1 < s.digits.length then '.' :: s.digits.drop 1 else []) ++
      'e' :: (if decpt - 1 < 0 then '-' else '+') :: pad2 (decpt - 1).natAbs
  else if decpt ≤ 0 then '0' :: '.' :: zeros (-decpt).toNat ++ s.digits
  else if s.digits.length ≤ decpt then s.digits ++ zeros (decpt.toNat - s.digits.length) ++ ['.', '0']
  else s.digits.take decpt.toNat ++ '.' :: s.digits.drop decpt.toNat

def isExponentMark (c : Char) : Bool := c = 'e' || c = 'E'

/-- `trimEnd('0')` -/
def trimZeros (digits : List Char) : List Char := digits.rdropWhile (· = '0')

/-- `exp10` -/
def exponentOf (raw : List Char) : Option ℤ :=
  match raw.dropWhile (!isExponentMark ·) with
  | [] => some 0
  | _ :: scale => toInt scale

def significant (raw : List Char) : Option (List Char × ℤ) := do
  let mantissa := raw.takeWhile (!isExponentMark ·)
  let exp10 ← exponentOf raw
  let dot := mantissa.idxOf? '.'
  let allDigits := match dot with
    | some dot => mantissa.eraseIdx dot
    | none => mantissa
  let pointPos := dot.getD mantissa.length
  let firstSignificant ← allDigits.findIdx? (· ≠ '0')
  let digits := trimZeros (allDigits.drop firstSignificant)
  let e : ℤ := pointPos - 1 - (firstSignificant : ℕ) + exp10
  return (if digits = [] then ['0'] else digits, e)

def restyle (digits : List Char) (e : ℤ) : List Char :=
  if -4 ≤ e ∧ e ≤ 15 then
    if (digits.length : ℤ) - 1 ≤ e then digits ++ zeros (e - digits.length + 1).toNat ++ ['.', '0']
    else if 0 ≤ e then digits.take (e + 1).toNat ++ '.' :: digits.drop (e + 1).toNat
    else '0' :: '.' :: zeros (-e - 1).toNat ++ digits
  else
    (if 1 < digits.length then digits.take 1 ++ '.' :: digits.drop 1 else digits) ++
      'e' :: (if e < 0 then '-' else '+') :: (Nat.toDigits 10 e.natAbs).leftpad 2 '0'

theorem restyle_eq (s : Shortest) : restyle s.digits s.exponent = floatRepr s := by
  have positive : 0 < s.digits.length := List.length_pos_iff.mpr s.nonempty
  unfold restyle floatRepr
  dsimp only
  by_cases fixed : -4 ≤ s.exponent ∧ s.exponent ≤ 15
  · have plain : ¬ (s.exponent + 1 ≤ -4 ∨ 16 < s.exponent + 1) := by omega
    rw [if_pos fixed, if_neg plain]
    by_cases below : s.exponent < 0
    · have short : ¬ ((s.digits.length : ℤ) - 1 ≤ s.exponent) := by omega
      have negative : s.exponent + 1 ≤ 0 := by omega
      rw [if_neg short, if_neg (Int.not_le.mpr below), if_pos negative]
      congr 5
      omega
    · have positive' : ¬ s.exponent + 1 ≤ 0 := by omega
      rw [if_neg positive']
      by_cases whole : (s.digits.length : ℤ) - 1 ≤ s.exponent
      · have whole' : (s.digits.length : ℤ) ≤ s.exponent + 1 := by omega
        rw [if_pos whole, if_pos whole']
        congr 3
        omega
      · have whole' : ¬ (s.digits.length : ℤ) ≤ s.exponent + 1 := by omega
        rw [if_neg whole, if_pos (Int.not_lt.mp below), if_neg whole']
  · have far : s.exponent + 1 ≤ -4 ∨ 16 < s.exponent + 1 := by omega
    have back : s.exponent + 1 - 1 = s.exponent := by omega
    rw [if_neg fixed, if_pos far, back]
    congr 1
    by_cases several : 1 < s.digits.length
    · rw [if_pos several, if_pos several]
    · rw [if_neg several, if_neg several, List.append_nil, List.take_of_length_le (Nat.not_lt.mp several)]

theorem zeros_decimal {n : ℕ} {c : Char} (member : c ∈ zeros n) : c.isDigit = true := by
  rw [List.eq_of_mem_replicate member]
  rfl

theorem not_mark {c : Char} (digit : c.isDigit = true) : isExponentMark c = false ∧ c ≠ '.' := by
  constructor
  · by_contra marked
    rw [Bool.not_eq_false, isExponentMark, Bool.or_eq_true, decide_eq_true_eq, decide_eq_true_eq] at marked
    rcases marked with rfl | rfl <;> revert digit <;> decide
  · rintro rfl
    revert digit
    decide

theorem trimZeros_append {digits : List Char} (last : digits.getLast? ≠ some '0') (n : ℕ) :
    trimZeros (digits ++ zeros n) = digits := by
  unfold trimZeros List.rdropWhile zeros
  rw [List.reverse_append, List.reverse_replicate, List.dropWhile_append_of_pos (by
    intro c member
    rw [List.eq_of_mem_replicate member]
    rfl)]
  have kept : digits.reverse.dropWhile (fun c => decide (c = '0')) = digits.reverse := by
    cases back : digits.reverse with
    | nil => rfl
    | cons c rest =>
      rw [List.dropWhile_cons_of_neg]
      rintro zero
      refine last ?_
      rw [List.getLast?_eq_head?_reverse, back, List.head?_cons, of_decide_eq_true zero]
  rw [kept, List.reverse_reverse]

theorem findIdx_zeros_append {digits : List Char} (nonempty : digits ≠ []) (first : digits.head? ≠ some '0') (n : ℕ)
    (rest : List Char) : (zeros n ++ digits ++ rest).findIdx? (fun c => decide (c ≠ '0')) = some n := by
  cases digits with
  | nil => exact absurd rfl nonempty
  | cons d digits =>
    have none : (zeros n).findIdx? (fun c => decide (c ≠ '0')) = none := by
      refine List.findIdx?_eq_none_iff.mpr fun c member => ?_
      rw [List.eq_of_mem_replicate member]
      rfl
    have here : decide (d ≠ '0') = true := by
      rw [decide_eq_true_eq]
      rintro rfl
      exact first rfl
    rw [List.append_assoc, List.findIdx?_append, none, List.cons_append, List.findIdx?_cons, if_pos here]
    simp [zeros]

namespace Layout

variable {s : Shortest} (layout : Layout s)

theorem all_decimal {c : Char} (member : c ∈ layout.all) : c.isDigit = true := by
  rcases List.mem_append.mp member with front | after
  · rcases List.mem_append.mp front with before | digit
    · exact zeros_decimal before
    · exact s.decimal c digit
  · exact zeros_decimal after

theorem all_length : layout.all.length = layout.before + s.digits.length + layout.after := by
  simp [all, zeros, Nat.add_assoc]

theorem mantissa_unmarked {c : Char} (member : c ∈ layout.mantissa) : isExponentMark c = false := by
  unfold mantissa at member
  split at member
  · exact (not_mark (layout.all_decimal member)).1
  · rcases List.mem_append.mp member with front | back
    · exact (not_mark (layout.all_decimal (List.mem_of_mem_take front))).1
    · rcases List.mem_cons.mp back with rfl | back
      · rfl
      · exact (not_mark (layout.all_decimal (List.mem_of_mem_drop back))).1

theorem split_text : layout.text.takeWhile (!isExponentMark ·) = layout.mantissa ∧
    exponentOf layout.text = some layout.scale := by
  have plain : ∀ c ∈ layout.mantissa, (!isExponentMark c) = true := fun c member => by
    rw [layout.mantissa_unmarked member]
    rfl
  unfold exponentOf text
  cases given : layout.power with
  | none =>
    dsimp only
    rw [List.append_nil, List.takeWhile_eq_self_iff.mpr plain, List.dropWhile_eq_nil_iff.mpr plain,
      layout.reads.1 given]
    exact ⟨rfl, rfl⟩
  | some x =>
    obtain ⟨letter, scale⟩ := x
    have marked : (!isExponentMark letter) = false := by
      rcases layout.letter _ given with rfl | rfl <;> rfl
    dsimp only
    rw [List.takeWhile_append_of_pos plain, List.dropWhile_append_of_pos plain,
      List.takeWhile_cons_of_neg (by rw [marked]; exact Bool.false_ne_true),
      List.dropWhile_cons_of_neg (by rw [marked]; exact Bool.false_ne_true), List.append_nil]
    exact ⟨rfl, layout.reads.2 _ given⟩

theorem split_mantissa :
    (match layout.mantissa.idxOf? '.' with
      | some dot => layout.mantissa.eraseIdx dot
      | none => layout.mantissa) = layout.all ∧
    (layout.mantissa.idxOf? '.').getD layout.mantissa.length =
      layout.point.getD (layout.before + s.digits.length + layout.after) := by
  have undotted : ∀ l : List Char, (∀ c ∈ l, c ∈ layout.all) → l.idxOf? '.' = none := by
    intro l inside
    refine List.findIdx?_eq_none_iff.mpr fun c member => ?_
    rw [beq_eq_false_iff_ne]
    exact (not_mark (layout.all_decimal (inside c member))).2
  unfold mantissa
  cases given : layout.point with
  | none =>
    dsimp only
    rw [undotted _ fun c member => member]
    exact ⟨rfl, layout.all_length⟩
  | some p =>
    have bound := layout.inside p given
    rw [← layout.all_length] at bound
    have front : (layout.all.take p).length = p := List.length_take_of_le bound
    have dot : (layout.all.take p ++ '.' :: layout.all.drop p).idxOf? '.' = some p := by
      unfold List.idxOf?
      rw [List.findIdx?_append, show (layout.all.take p).findIdx? (· == '.') = none from
        undotted _ fun c member => List.mem_of_mem_take member, List.findIdx?_cons, if_pos (beq_self_eq_true _)]
      simp [front]
    dsimp only
    rw [dot]
    refine ⟨?_, rfl⟩
    dsimp only
    rw [List.eraseIdx_append_of_length_le (Nat.le_of_eq front), front, Nat.sub_self, List.eraseIdx_cons_zero,
      List.take_append_drop]

theorem significant_text : significant layout.text = some (s.digits, s.exponent) := by
  obtain ⟨mantissa, scale⟩ := layout.split_text
  obtain ⟨digits, point⟩ := layout.split_mantissa
  have found : layout.all.findIdx? (fun c => decide (c ≠ '0')) = some layout.before :=
    findIdx_zeros_append s.nonempty s.first layout.before (zeros layout.after)
  have rest : layout.all.drop layout.before = s.digits ++ zeros layout.after := by
    unfold all
    rw [List.append_assoc]
    exact List.drop_left' (List.length_replicate)
  unfold significant
  simp only [mantissa, scale, digits, point, found, rest, trimZeros_append s.last, if_neg s.nonempty, Option.bind_eq_bind,
    Option.bind_some, Option.pure_def]
  rw [← layout.placed]

end Layout

/-! ### What `repr` writes is a layout -/

theorem natural_digits (n count : ℕ) : toInt.natural ((Nat.toDigits 10 n).leftpad count '0') = some n := by
  have decimal : ∀ c ∈ (Nat.toDigits 10 n).leftpad count '0', c.isDigit = true := by
    intro c member
    rw [List.leftpad] at member
    rcases List.mem_append.mp member with pad | digit
    · exact zeros_decimal pad
    · exact Nat.isDigit_of_mem_toDigits (by decide) (by decide) digit
  unfold toInt.natural
  rw [if_neg]
  · rw [List.leftpad, Nat.ofDigitChars_append, Nat.ofDigitChars_replicate_zero, Nat.mul_zero, Nat.ofDigitChars_ten_toDigits]
  · rintro (none | other)
    · rw [List.leftpad] at none
      exact Nat.toDigits_ne_nil (List.append_eq_nil_iff.mp none).2
    · obtain ⟨c, member, undecimal⟩ := List.any_eq_true.mp other
      rw [decimal c member] at undecimal
      cases undecimal

theorem toInt_signed (n : ℕ) (e : ℤ) (same : e.natAbs = n) :
    toInt ((if e < 0 then '-' else '+') :: (Nat.toDigits 10 n).leftpad 2 '0') = some e := by
  split
  · show (toInt.natural _).map _ = _
    rw [natural_digits, Option.map_some]
    congr 1
    omega
  · show (toInt.natural _).map _ = _
    rw [natural_digits, Option.map_some]
    congr 1
    omega

theorem toInt_toString (n : ℤ) : toInt (toString n).toList = some n := by
  cases n with
  | ofNat m =>
    have text : (toString (Int.ofNat m)).toList = Nat.toDigits 10 m := by
      show (Nat.repr m).toList = _
      exact Nat.toList_repr
    rw [text]
    have value := natural_digits m 0
    rw [show (Nat.toDigits 10 m).leftpad 0 '0' = Nat.toDigits 10 m by simp [List.leftpad]] at value
    cases digits : Nat.toDigits 10 m with
    | nil => exact absurd digits Nat.toDigits_ne_nil
    | cons c rest =>
      have digit : c.isDigit = true :=
        Nat.isDigit_of_mem_toDigits (b := 10) (n := m) (by decide) (by decide) (by rw [digits]; exact List.mem_cons_self)
      rw [digits] at value
      unfold toInt
      split
      · rename_i same
        cases same
        exact absurd digit (by decide)
      · rename_i same
        cases same
        exact absurd digit (by decide)
      · rw [value]
        rfl
  | negSucc m =>
    have text : (toString (Int.negSucc m)).toList = '-' :: Nat.toDigits 10 (m + 1) := by
      show ("-" ++ Nat.repr (m + 1)).toList = _
      rw [String.toList_append, Nat.toList_repr]
      rfl
    have value := natural_digits (m + 1) 0
    rw [show (Nat.toDigits 10 (m + 1)).leftpad 0 '0' = Nat.toDigits 10 (m + 1) by simp [List.leftpad]] at value
    rw [text]
    show (toInt.natural _).map _ = _
    rw [value]
    rfl

def Layout.fixed {s : Shortest} (before after p : ℕ) (inside : p ≤ before + s.digits.length + after)
    (placed : s.exponent = p - 1 - before) : Layout s where
  before := before
  after := after
  point := some p
  power := none
  scale := 0
  inside := by
    rintro q same
    rw [← Option.some.inj same]
    exact inside
  letter := by rintro x ⟨⟩
  reads := ⟨fun _ => rfl, by rintro x ⟨⟩⟩
  placed := by
    rw [Option.getD_some, placed]
    omega

theorem Layout.fixed_text {s : Shortest} {before after p : ℕ} (inside : p ≤ before + s.digits.length + after)
    (placed : s.exponent = p - 1 - before) : (Layout.fixed before after p inside placed).text =
      (zeros before ++ s.digits ++ zeros after).take p ++ '.' :: (zeros before ++ s.digits ++ zeros after).drop p :=
  List.append_nil _

def Layout.scientific (s : Shortest) : Layout s where
  before := 0
  after := 0
  point := if 1 < s.digits.length then some 1 else none
  power := some ('e', (if s.exponent < 0 then '-' else '+') :: pad2 s.exponent.natAbs)
  scale := s.exponent
  inside := by
    rintro p same
    split at same
    · rw [← Option.some.inj same]
      omega
    · cases same
  letter := by
    rintro x same
    rw [← Option.some.inj same]
    exact .inl rfl
  reads := by
    refine ⟨nofun, ?_⟩
    rintro x same
    rw [← Option.some.inj same]
    exact toInt_signed _ _ rfl
  placed := by
    have positive : 0 < s.digits.length := List.length_pos_iff.mpr s.nonempty
    split
    · simp
    · rw [Option.getD_none]
      omega

theorem floatRepr_layout (s : Shortest) : ∃ layout : Layout s, layout.text = floatRepr s := by
  have positive : 0 < s.digits.length := List.length_pos_iff.mpr s.nonempty
  have back : s.exponent + 1 - 1 = s.exponent := by omega
  unfold floatRepr
  dsimp only
  rw [back]
  split
  · refine ⟨Layout.scientific s, ?_⟩
    by_cases several : 1 < s.digits.length
    · simp [Layout.text, Layout.mantissa, Layout.all, Layout.scientific, zeros, several]
    · have single : s.digits.length ≤ 1 := by omega
      simp [Layout.text, Layout.mantissa, Layout.all, Layout.scientific, zeros, several, List.take_of_length_le single]
  split
  · rename_i small
    refine ⟨.fixed (1 + (-(s.exponent + 1)).toNat) 0 1 (by omega) (by omega), ?_⟩
    rw [Layout.fixed_text]
    simp [zeros, Nat.add_comm 1, List.replicate_succ]
  split
  · rename_i whole
    refine ⟨.fixed 0 ((s.exponent + 1).toNat - s.digits.length + 1) (s.exponent + 1).toNat (by omega) (by omega), ?_⟩
    have last : zeros ((s.exponent + 1).toNat - s.digits.length + 1) =
        zeros ((s.exponent + 1).toNat - s.digits.length) ++ ['0'] := List.replicate_succ'
    have here : (s.digits ++ zeros ((s.exponent + 1).toNat - s.digits.length)).length = (s.exponent + 1).toNat := by
      simp [zeros]
      omega
    rw [Layout.fixed_text, last, show zeros 0 = [] from rfl, List.nil_append, ← List.append_assoc, List.take_left' here,
      List.drop_left' here]
  · refine ⟨.fixed 0 0 (s.exponent + 1).toNat (by omega) (by omega), ?_⟩
    rw [Layout.fixed_text]
    simp [zeros]

theorem floatRepr_injective {s s' : Shortest} (same : floatRepr s = floatRepr s') : s = s' := by
  obtain ⟨layout, text⟩ := floatRepr_layout s
  obtain ⟨layout', text'⟩ := floatRepr_layout s'
  have read := layout.significant_text
  rw [text, same, ← text', layout'.significant_text] at read
  obtain ⟨digits, exponent⟩ := Prod.mk.inj (Option.some.inj read)
  cases s
  cases s'
  cases digits
  cases exponent
  rfl

end DataCollectionLab.Crypto
