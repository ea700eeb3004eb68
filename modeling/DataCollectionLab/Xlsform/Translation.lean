import DataCollectionLab.Form.Functions
import DataCollectionLab.Form.Reference
import DataCollectionLab.Lib.Except
import DataCollectionLab.Lib.Texts

/-!
The functions of a translated expression. The importer gives a function of XPath the name of one of the engine's; the
engine's takes its arguments by its own convention, and knows no conversion from a number to a text or back.
-/

namespace DataCollectionLab.Xlsform

open Lib Form

def functions : List (String × String) :=
  [("count", "count"), ("sum", "sum"), ("min", "min"), ("max", "max"), ("count-selected", "count_selected"),
    ("coalesce", "coalesce"), ("today", "today"), ("now", "now"), ("string-length", "len"), ("upper-case", "upper"),
    ("lower-case", "lower"), ("normalize-space", "trim"), ("concat", "concat"), ("substr", "substr"),
    ("contains", "contains"), ("starts-with", "starts_with"), ("ends-with", "ends_with"), ("regex", "regex"),
    ("round", "round"), ("int", "int"), ("number", "dec"), ("string", "str"), ("distance", "distance"),
    ("pulldata", "pulldata"), ("sqrt", "sqrt"), ("sin", "sin"), ("cos", "cos"), ("tan", "tan"), ("atan", "atan")]

structure ExpressionError where
  message : String
  function : Option String := none
  offset : ℕ

/-- The end of `parse_call`, with the arguments read. -/
def parseCall (lower : String → String) (name : String) (offset : ℕ) (args : List Expr) : Except ExpressionError Expr :=
  let lowered := lower name
  if lowered = "not" then
    if args.length ≠ 1 then .error ⟨"not() takes one argument", none, offset⟩ else .ok (.op "not" args)
  else if lowered = "selected" then
    if args.length ≠ 2 then .error ⟨"selected() takes two arguments", none, offset⟩ else .ok (.op "selected" args)
  else if lowered = "if" then
    if args.length ≠ 3 then .error ⟨"if() takes three arguments", none, offset⟩ else .ok (.op "if" args)
  else
    match functions.lookup lowered with
    | none => .error ⟨name ++ "() is not a function this importer can translate yet", some lowered, offset⟩
    | some target => .ok (.call target args)

/-- A word between two operands in `parse_additive`. -/
def parseWord (lower : String → String) (word : String) (left right : Expr) : Option Expr :=
  if lower word ∈ ["div", "mod"] then some (.op (lower word) [left, right]) else none

/-! ### What the functions mean -/

inductive Arg where
  | text (value : String)
  | integer (value : ℤ)

def Arg.value : Arg → Value
  | text s => .text s
  | integer n => .integer n

/-- A call of one of the functions, with as many arguments as it may have, or `mod` between two operands. -/
inductive Call where
  | substr (source start : Arg) (stop : Option Arg)
  | normalizeSpace (source : Option Arg)
  | stringLength (source : Option Arg)
  | contains (source part : Arg)
  | startsWith (source part : Arg)
  | endsWith (source part : Arg)
  | concat (first second : Arg) (others : List Arg)
  | mod (dividend divisor : Arg)

def Call.name : Call → String
  | substr .. => "substr"
  | normalizeSpace _ => "normalize-space"
  | stringLength _ => "string-length"
  | contains .. => "contains"
  | startsWith .. => "starts-with"
  | endsWith .. => "ends-with"
  | concat .. => "concat"
  | mod .. => "mod"

def Call.args : Call → List Arg
  | substr source start stop => source :: start :: stop.toList
  | normalizeSpace source | stringLength source => source.toList
  | contains source part | startsWith source part | endsWith source part => [source, part]
  | concat first second others => first :: second :: others
  | mod dividend divisor => [dividend, divisor]

def Call.translated (lower : String → String) (name : String) (offset : ℕ) (args : List Expr) : Call → Option Expr
  | mod .. =>
    match args with
    | [left, right] => parseWord lower name left right
    | _ => none
  | _ => (parseCall lower name offset args).toOption

/-- What a call reads of XPath: `number` of a text, none where it is not a number, and the text of the context node. -/
structure XPath where
  number : String → Option ℚ
  context : String

inductive Meaning where
  | text (value : List Char)
  | number (value : Option ℚ)
  | truth (value : Bool)

def isXmlSpace (c : Char) : Bool := c = ' ' || c = '\t' || c = '\n' || c = '\r'

namespace XPath

variable (xpath : XPath)

/-- `string` of an argument. -/
def string : Arg → List Char
  | .text s => s.toList
  | .integer n => (toString n).toList

/-- `number` of an argument. -/
def numberOf : Arg → Option ℚ
  | .text s => xpath.number s
  | .integer n => some n

/-- `string` of an argument, or of the context node. -/
def stringOr (arg : Option Arg) : List Char := (arg.map string).getD xpath.context.toList

def remainder (x y : ℚ) : Option ℚ := if y = 0 then none else some (x - y * Binary64.truncated (x / y))

def after (start : Option ℚ) (p : ℕ) : Bool := (start.map fun q => decide (q ≤ (p : ℚ))).getD false

def before (stop : Option ℚ) (p : ℕ) : Bool := (stop.map fun q => decide ((p : ℚ) < q)).getD false

def meaning : Call → Meaning
  | .substr source start none => .text (atPositions (after (xpath.numberOf start)) (string source))
  | .substr source start (some stop) =>
    .text (atPositions (fun p => after (xpath.numberOf start) p && before (xpath.numberOf stop) p) (string source))
  | .normalizeSpace source => .text (squeeze isXmlSpace ' ' (trim isXmlSpace (xpath.stringOr source)))
  | .stringLength source => .number (some (xpath.stringOr source).length)
  | .contains source part => .truth (string part <:+: string source)
  | .startsWith source part => .truth (string part <+: string source)
  | .endsWith source part => .truth (string part <:+ string source)
  | .concat first second others => .text ((first :: second :: others).flatMap string)
  | .mod dividend divisor =>
    .number ((xpath.numberOf dividend).bind fun x => (xpath.numberOf divisor).bind fun y => remainder x y)

end XPath

def Agrees : Value → Meaning → Prop
  | .text s, .text t => s.toList = t
  | .integer n, .number (some q) => (n : ℚ) = q
  | .null, .number none => True
  | .bool a, .truth b => a = b
  | _, _ => False

section Keeps

variable (xpath : XPath) (lib : Library) (lower : String → String)
  (resolve : Context → String → Except Failure Value) (ctx : Context)

def Call.Keeps (call : Call) (name : String) (offset : ℕ) (args : List Expr) : Prop :=
  ∃ tree value, call.translated lower name offset args = some tree ∧
    Reference.evaluate (Reference.call lib) resolve ctx tree = .ok value ∧ Agrees value (xpath.meaning call)

def SameSlice (s : List Char) (i j : ℤ) : Prop :=
  if 0 ≤ i then
    if j < -i then s.length + j ≤ 0 else i = 0 ∨ j ≤ 0 ∨ s.length ≤ i ∨ s.length ≤ j
  else
    j ≤ 0 ∨ s = [] ∨ (s.length + i ≤ 0 ∧ s.length ≤ i + j) ∨
      (0 ≤ s.length + i ∧ i + j < 0 ∧ (s.drop (s.length + i).toNat).take j.toNat = s.take j.toNat)

def Call.Safe : Call → Prop
  | .substr source start none => ∃ s i, source = .text s ∧ start = .integer i ∧ (0 ≤ i ∨ s.toList.length + i ≤ 0)
  | .substr source start (some stop) =>
    ∃ s i j, source = .text s ∧ start = .integer i ∧ stop = .integer j ∧ SameSlice s.toList i j
  | .normalizeSpace source =>
    ∃ s, source = some (.text s) ∧ Trimmed Reference.isSpace (trim isXmlSpace s.toList) ∧
      Squeezed isXmlSpace ' ' (trim isXmlSpace s.toList)
  | .stringLength source => ∃ s, source = some (.text s)
  | .contains source part | .startsWith source part | .endsWith source part =>
    ∃ s t, source = .text s ∧ part = .text t
  | .concat _ _ others => others.length ≤ 97
  | .mod (.integer x) (.integer y) => y = 0 ∨ y ∣ x ∨ (0 < x ∧ 0 < y) ∨ (x < 0 ∧ y < 0)
  | .mod dividend divisor =>
    xpath.numberOf dividend = none ∨ xpath.numberOf divisor = none ∨ xpath.numberOf divisor = some 0

end Keeps

/-! ### The engine's functions -/

section Engine

variable {xpath : XPath} {lib : Library} {lower : String → String} {resolve : Context → String → Except Failure Value}
  {ctx : Context} {name : String} {offset : ℕ} {args : List Expr}

theorem evaluate_call {fn : String} {impl : List Value → Except Failure Value} {values : List Value}
    (found : Reference.call lib ctx fn = .ok impl)
    (evaluated : Reference.evaluateAll (Reference.call lib) resolve ctx args = .ok values) :
    Reference.evaluate (Reference.call lib) resolve ctx (.call fn args) = impl values := by
  rw [Reference.evaluate, found, evaluated]
  rfl

theorem parseCall_known {target : String} (known : functions.lookup (lower name) = some target)
    (plain : lower name ∉ ["not", "selected", "if"]) : parseCall lower name offset args = .ok (.call target args) := by
  simp only [List.mem_cons, List.not_mem_nil, or_false, not_or] at plain
  unfold parseCall
  dsimp only
  rw [if_neg plain.1, if_neg plain.2.1, if_neg plain.2.2, known]

theorem keeps_call {call : Call} {target : String} {impl : List Value → Except Failure Value} {values : List Value}
    (tree : call.translated lower name offset args = some (.call target args))
    (found : Reference.call lib ctx target = .ok impl)
    (evaluated : Reference.evaluateAll (Reference.call lib) resolve ctx args = .ok values) :
    call.Keeps xpath lib lower resolve ctx name offset args ↔ ∃ value, impl values = .ok value ∧ Agrees value (xpath.meaning call) := by
  unfold Call.Keeps
  rw [tree]
  constructor
  · rintro ⟨_, value, ⟨⟩, is, agrees⟩
    exact ⟨value, (evaluate_call found evaluated).symm.trans is, agrees⟩
  · rintro ⟨value, is, agrees⟩
    exact ⟨_, value, rfl, (evaluate_call found evaluated).trans is, agrees⟩

theorem agrees_ok {value : Value} {m : Meaning} : (∃ v, (.ok value : Except Failure Value) = .ok v ∧ Agrees v m) ↔ Agrees value m := by
  constructor
  · rintro ⟨v, ⟨⟩, agrees⟩
    exact agrees
  · exact fun agrees => ⟨value, rfl, agrees⟩

theorem agrees_error {failure : Failure} {m : Meaning} :
    ¬ ∃ v, (.error failure : Except Failure Value) = .ok v ∧ Agrees v m := by
  rintro ⟨v, ⟨⟩, -⟩

section Texts

theorem within_iff (x y : List Char) : Reference.within x y = true ↔ y <:+: x := by
  unfold Reference.within
  induction x with
  | nil =>
    rw [cutAt, List.infix_nil]
    simp
  | cons c x ih =>
    rw [cutAt, List.infix_cons_iff]
    by_cases front : y.isPrefixOf (c :: x) = true
    · rw [if_pos front]
      simp [List.isPrefixOf_iff_prefix.mp front]
    · have none : ¬ y <+: c :: x := fun occurs => front (List.isPrefixOf_iff_prefix.mpr occurs)
      rw [if_neg front, Option.isSome_map]
      simp [ih, none]

theorem len_iff (a : Arg) (length : ℕ) (is : ∀ s, a = .text s → length = s.toList.length) :
    Agrees (Reference.len a.value) (.number (some length)) ↔ ∃ s, a = .text s := by
  cases a with
  | text s =>
    rw [is s rfl]
    exact iff_of_true (Int.cast_natCast _) ⟨s, rfl⟩
  | integer n => exact iff_of_false False.elim fun ⟨s, same⟩ => Arg.noConfusion same

theorem text2_iff {op : List Char → List Char → Bool} (source part : Arg) {truth : Bool}
    (is : ∀ s t, source = .text s → part = .text t → op s.toList t.toList = truth) :
    Agrees (Reference.text2 op source.value part.value) (.truth truth) ↔ ∃ s t, source = .text s ∧ part = .text t := by
  cases source with
  | text s =>
    cases part with
    | text t => exact iff_of_true (is s t rfl rfl) ⟨s, t, rfl, rfl⟩
    | integer n => exact iff_of_false False.elim fun ⟨_, _, _, same⟩ => Arg.noConfusion same
  | integer n => exact iff_of_false False.elim fun ⟨_, _, same, _⟩ => Arg.noConfusion same

theorem xmlSpace_space {c : Char} (space : isXmlSpace c = true) : Reference.isSpace c = true := by
  unfold isXmlSpace at space
  simp only [Bool.or_eq_true, decide_eq_true_eq] at space
  rcases space with ((rfl | rfl) | rfl) | rfl <;> decide

theorem agrees_text {l t : List Char} : Agrees (.text (String.ofList l)) (.text t) ↔ l = t := by
  show (String.ofList l).toList = t ↔ _
  rw [String.toList_ofList]

theorem trim_iff (a : Arg) {t : List Char} (is : ∀ s, a = .text s → t = squeeze isXmlSpace ' ' (trim isXmlSpace s.toList)) :
    Agrees (Reference.text1 (fun s => String.ofList (Reference.strip s.toList)) a.value) (.text t) ↔
      ∃ s, a = .text s ∧ Trimmed Reference.isSpace (trim isXmlSpace s.toList) ∧
        Squeezed isXmlSpace ' ' (trim isXmlSpace s.toList) := by
  cases a with
  | text s =>
    rw [is s rfl]
    refine agrees_text.trans ((trim_eq_squeeze_iff (fun _ => xmlSpace_space) s.toList).trans ?_)
    constructor
    · exact fun both => ⟨s, rfl, both⟩
    · rintro ⟨_, ⟨⟩, both⟩
      exact both
  | integer n => exact iff_of_false False.elim fun ⟨_, same, _⟩ => Arg.noConfusion same

end Texts

section Slices

theorem sliceIndex_eq (n : ℕ) (i : ℤ) : (Reference.sliceIndex n i : ℤ) = if i < 0 then max 0 (i + n) else min i n := by
  unfold Reference.sliceIndex
  split <;> omega

theorem slice_from_iff (s : List Char) (i : ℤ) : Reference.slice s i none = s.drop i.toNat ↔ 0 ≤ i ∨ s.length + i ≤ 0 := by
  have index := sliceIndex_eq s.length i
  show (s.take s.length).drop (Reference.sliceIndex s.length i) = s.drop i.toNat ↔ _
  rw [List.take_length]
  constructor
  · intro same
    have sizes := congrArg List.length same
    rw [List.length_drop, List.length_drop] at sizes
    split at index <;> omega
  · intro held
    by_cases negative : i < 0
    · rw [if_pos negative] at index
      have start : Reference.sliceIndex s.length i = i.toNat := by omega
      rw [start]
    · rw [if_neg negative] at index
      by_cases past : i ≤ s.length
      · have start : Reference.sliceIndex s.length i = i.toNat := by omega
        rw [start]
      · rw [List.drop_eq_nil_of_le (by omega), List.drop_eq_nil_of_le (by omega)]

theorem slice_same_iff (s : List Char) (i j : ℤ) :
    Reference.slice s i (some (i + j)) = (s.take j.toNat).drop i.toNat ↔ SameSlice s i j := by
  have start := sliceIndex_eq s.length i
  have stop := sliceIndex_eq s.length (i + j)
  show (s.take (Reference.sliceIndex s.length (i + j))).drop (Reference.sliceIndex s.length i) = _ ↔ _
  generalize Reference.sliceIndex s.length i = a at start ⊢
  generalize Reference.sliceIndex s.length (i + j) = m at stop ⊢
  unfold SameSlice
  by_cases forward : 0 ≤ i
  · rw [if_pos forward]
    rw [if_neg (by omega)] at start
    by_cases past : (s.length : ℤ) ≤ i
    · rw [List.drop_eq_nil_of_le (by rw [List.length_take]; omega), List.drop_eq_nil_of_le (by rw [List.length_take]; omega)]
      refine iff_of_true rfl ?_
      split <;> omega
    · have same : a = i.toNat := by omega
      rw [same, List.drop_take, List.drop_take, List.take_eq_take_iff, List.length_drop]
      split at stop <;> split <;> omega
  · rw [if_neg forward]
    rw [if_pos (by omega)] at start
    have zero : i.toNat = 0 := by omega
    rw [zero, List.drop_zero]
    by_cases nothing : j ≤ 0
    · have none : j.toNat = 0 := by omega
      rw [if_pos (by omega)] at stop
      rw [none, List.take_zero, List.drop_eq_nil_of_le (by rw [List.length_take]; omega)]
      exact iff_of_true rfl (.inl nothing)
    by_cases empty : s = []
    · subst empty
      exact iff_of_true (by simp) (.inr (.inl rfl))
    have some : 0 < s.length := List.length_pos_iff.mpr empty
    by_cases whole : (s.length : ℤ) + i ≤ 0
    · have same : a = 0 := by omega
      have back : (s.length + i).toNat = 0 := by omega
      rw [same, List.drop_zero, back, List.drop_zero, List.take_eq_take_iff]
      simp only [empty, false_or, and_true]
      split at stop <;> omega
    · by_cases wraps : i + j < 0
      · rw [if_pos wraps] at stop
        have front : (s.length + i).toNat = a := by omega
        have many : m - a = j.toNat := by omega
        rw [List.drop_take, many, front]
        constructor
        · exact fun same => .inr (.inr (.inr ⟨by omega, wraps, same⟩))
        · rintro (held | held | held | held)
          · omega
          · exact absurd held empty
          · omega
          · exact held.2.2
      · rw [if_neg wraps] at stop
        refine iff_of_false (fun same => ?_) ?_
        · have sizes := congrArg List.length same
          rw [List.length_drop, List.length_take, List.length_take] at sizes
          omega
        · rintro (held | held | held | held)
          · omega
          · exact empty held
          · omega
          · omega

end Slices

theorem substr_from_iff (source start : Arg) :
    Agrees (Reference.substr [source.value, start.value]) (xpath.meaning (.substr source start none)) ↔
      (Call.substr source start none).Safe xpath := by
  cases source with
  | text s =>
    cases start with
    | integer i =>
      have bound : XPath.after (xpath.numberOf (.integer i)) = fun p => decide (i.toNat ≤ p) := by
        funext p
        show decide ((i : ℚ) ≤ (p : ℚ)) = _
        rw [decide_eq_decide, ← Int.cast_natCast, Int.cast_le]
        omega
      have means : xpath.meaning (.substr (.text s) (.integer i) none) = .text (s.toList.drop i.toNat) := by
        rw [XPath.meaning, bound, atPositions_from]
        rfl
      rw [means]
      refine agrees_text.trans ((slice_from_iff s.toList i).trans ?_)
      constructor
      · exact fun held => ⟨s, i, rfl, rfl, held⟩
      · rintro ⟨_, _, ⟨⟩, ⟨⟩, held⟩
        exact held
    | text t => exact iff_of_false False.elim fun ⟨_, _, _, same, _⟩ => Arg.noConfusion same
  | integer n =>
    refine iff_of_false ?_ fun ⟨_, _, same, _⟩ => Arg.noConfusion same
    cases start <;> exact False.elim

theorem substr_between_iff (source start stop : Arg) :
    Agrees (Reference.substr [source.value, start.value, stop.value]) (xpath.meaning (.substr source start (some stop))) ↔
      (Call.substr source start (some stop)).Safe xpath := by
  cases source with
  | text s =>
    cases start with
    | integer i =>
      cases stop with
      | integer j =>
        have bound : (fun p => XPath.after (xpath.numberOf (.integer i)) p && XPath.before (xpath.numberOf (.integer j)) p) =
            fun p => decide (i.toNat ≤ p) && decide (p < j.toNat) := by
          funext p
          show (decide ((i : ℚ) ≤ (p : ℚ)) && decide ((p : ℚ) < (j : ℚ))) = _
          rw [← Int.cast_natCast (R := ℚ) p, Bool.eq_iff_iff]
          simp only [Bool.and_eq_true, decide_eq_true_eq, Int.cast_le, Int.cast_lt]
          omega
        have means : xpath.meaning (.substr (.text s) (.integer i) (some (.integer j))) =
            .text ((s.toList.take j.toNat).drop i.toNat) := by
          rw [XPath.meaning, bound, atPositions_between]
          rfl
        rw [means]
        refine agrees_text.trans ((slice_same_iff s.toList i j).trans ?_)
        constructor
        · exact fun held => ⟨s, i, j, rfl, rfl, rfl, held⟩
        · rintro ⟨_, _, _, ⟨⟩, ⟨⟩, ⟨⟩, held⟩
          exact held
      | text t => exact iff_of_false False.elim fun ⟨_, _, _, _, _, same, _⟩ => Arg.noConfusion same
    | text t =>
      refine iff_of_false ?_ fun ⟨_, _, _, _, same, _⟩ => Arg.noConfusion same
      cases stop <;> exact False.elim
  | integer n =>
    refine iff_of_false ?_ fun ⟨_, _, _, same, _⟩ => Arg.noConfusion same
    cases start <;> cases stop <;> exact False.elim

section Remainders

theorem truncated_div (x : ℤ) {y : ℤ} (nonzero : y ≠ 0) : Binary64.truncated ((x : ℚ) / y) = x.tdiv y := by
  have cast : (y : ℚ) ≠ 0 := by exact_mod_cast nonzero
  have whole : (x : ℚ) = y * (x.tdiv y : ℚ) + x.tmod y := by exact_mod_cast (Int.mul_tdiv_add_tmod x y).symm
  have split : (x : ℚ) / y = (x.tdiv y : ℚ) + x.tmod y / y := by
    rw [whole]
    field_simp
  have size : |(x.tmod y : ℚ) / y| < 1 := by
    rw [abs_div, div_lt_one (abs_pos.mpr cast), ← Int.cast_abs, ← Int.cast_abs, Int.cast_lt, Int.abs_eq_natAbs,
      Int.abs_eq_natAbs, Int.natAbs_tmod]
    exact_mod_cast Nat.mod_lt _ (Int.natAbs_pos.mpr nonzero)
  obtain ⟨low, high⟩ := abs_lt.mp size
  have down (positive : 0 ≤ (x.tmod y : ℚ) / y) : ⌊(x : ℚ) / y⌋ = x.tdiv y := by
    rw [split, Int.floor_intCast_add, Int.floor_eq_zero_iff.mpr ⟨positive, high⟩, add_zero]
  have up (negative : (x.tmod y : ℚ) / y ≤ 0) : ⌈(x : ℚ) / y⌉ = x.tdiv y := by
    rw [split, Int.ceil_intCast_add, Int.ceil_eq_zero_iff.mpr ⟨low, negative⟩, add_zero]
  have rest_nonneg (positive : 0 ≤ x) : (0 : ℚ) ≤ x.tmod y := by exact_mod_cast Int.tmod_nonneg y positive
  have rest_nonpos (negative : x ≤ 0) : (x.tmod y : ℚ) ≤ 0 := by
    have flipped := Int.tmod_nonneg y (neg_nonneg.mpr negative)
    rw [Int.neg_tmod] at flipped
    exact_mod_cast neg_nonneg.mp flipped
  unfold Binary64.truncated
  split
  · rename_i negative
    apply up
    rcases div_neg_iff.mp negative with ⟨above, below⟩ | ⟨below, above⟩
    · exact div_nonpos_of_nonneg_of_nonpos (rest_nonneg (by exact_mod_cast above.le)) below.le
    · exact div_nonpos_of_nonpos_of_nonneg (rest_nonpos (by exact_mod_cast below.le)) above.le
  · rename_i positive
    apply down
    rcases div_nonneg_iff.mp (not_lt.mp positive) with ⟨above, above'⟩ | ⟨below, below'⟩
    · exact div_nonneg (rest_nonneg (by exact_mod_cast above)) above'
    · exact div_nonneg_of_nonpos (rest_nonpos (by exact_mod_cast below)) below'

theorem remainder_int (x : ℤ) {y : ℤ} (nonzero : y ≠ 0) : XPath.remainder x y = some (x.tmod y : ℚ) := by
  have cast : (y : ℚ) ≠ 0 := by exact_mod_cast nonzero
  have whole : (x : ℚ) = y * (x.tdiv y : ℚ) + x.tmod y := by exact_mod_cast (Int.mul_tdiv_add_tmod x y).symm
  rw [XPath.remainder, if_neg cast, truncated_div x nonzero, Option.some.injEq]
  linarith

theorem fmod_eq_tmod_iff (x : ℤ) {y : ℤ} (nonzero : y ≠ 0) :
    x.fmod y = x.tmod y ↔ y ∣ x ∨ (0 < x ∧ 0 < y) ∨ (x < 0 ∧ y < 0) := by
  rw [Int.fmod_eq_emod, Int.tmod_eq_emod]
  by_cases divides : y ∣ x
  · simp [divides]
  · have some : x ≠ 0 := by
      rintro rfl
      exact divides (dvd_zero y)
    simp only [divides, or_false, false_or]
    split <;> split <;> omega

theorem mod_iff (dividend divisor : Arg) :
    (∃ v, Reference.mod dividend.value divisor.value = .ok v ∧ Agrees v (xpath.meaning (.mod dividend divisor))) ↔
      (Call.mod dividend divisor).Safe xpath := by
  have missing (is : Reference.mod dividend.value divisor.value = .ok .null) :
      (∃ v, Reference.mod dividend.value divisor.value = .ok v ∧ Agrees v (xpath.meaning (.mod dividend divisor))) ↔
        xpath.numberOf dividend = none ∨ xpath.numberOf divisor = none ∨ xpath.numberOf divisor = some 0 := by
    rw [is, agrees_ok, XPath.meaning]
    cases xpath.numberOf dividend with
    | none => exact iff_of_true trivial (.inl rfl)
    | some x =>
      cases xpath.numberOf divisor with
      | none => exact iff_of_true trivial (.inr (.inl rfl))
      | some y =>
        by_cases zero : y = 0
        · subst zero
          exact iff_of_true trivial (.inr (.inr rfl))
        · have rest : XPath.remainder x y = some (x - y * Binary64.truncated (x / y)) := if_neg zero
          rw [Option.bind_some, Option.bind_some, rest]
          refine iff_of_false False.elim ?_
          simp [zero]
  cases dividend with
  | text s => exact missing rfl
  | integer x =>
    cases divisor with
    | text t => exact missing rfl
    | integer y =>
      by_cases zero : y = 0
      · subst zero
        have null : Reference.mod (.integer x) (.integer 0) = .ok .null := by rfl
        exact (missing null).trans (iff_of_true (.inr (.inr (by simp [XPath.numberOf]))) (.inl rfl))
      · have unequal : Reference.isZero (.int y) = false := by
          have cast : (y : ℚ) ≠ 0 := by exact_mod_cast zero
          simp [Reference.isZero, Num.exact, Binary64.eq, cast]
        have value : Reference.mod (.integer x) (.integer y) = .ok (.integer (x.fmod y)) := by
          simp only [Reference.mod, Reference.number, unequal]
          rfl
        have means : xpath.meaning (.mod (.integer x) (.integer y)) = .number (some (x.tmod y : ℚ)) := by
          rw [XPath.meaning, XPath.numberOf, XPath.numberOf, Option.bind_some, Option.bind_some, remainder_int x zero]
        show (∃ v, Reference.mod (.integer x) (.integer y) = .ok v ∧ _) ↔ _
        rw [value, agrees_ok, means]
        show ((x.fmod y : ℤ) : ℚ) = (x.tmod y : ℚ) ↔ y = 0 ∨ y ∣ x ∨ (0 < x ∧ 0 < y) ∨ (x < 0 ∧ y < 0)
        rw [Int.cast_inj, fmod_eq_tmod_iff x zero]
        exact (or_iff_right zero).symm

end Remainders

theorem concat_text (args : List Arg) :
    Reference.concat lib (args.map Arg.value) = .text (String.ofList (args.flatMap XPath.string)) := by
  have each : ∀ a : Arg, (Reference.castStr lib a.value).getD "" = String.ofList (XPath.string a) := by
    intro a
    cases a with
    | text s => exact String.ofList_toList.symm
    | integer n => exact String.ofList_toList.symm
  unfold Reference.concat
  congr 1
  apply String.toList_inj.mp
  rw [String.toList_join, String.toList_ofList, List.map_map, List.flatMap_map]
  congr 1
  funext a
  exact (congrArg String.toList (each a)).trans String.toList_ofList

def Call.target : Call → String
  | .substr .. => "substr"
  | .normalizeSpace _ => "trim"
  | .stringLength _ => "len"
  | .contains .. => "contains"
  | .startsWith .. => "starts_with"
  | .endsWith .. => "ends_with"
  | .concat .. => "concat"
  | .mod .. => "mod"

theorem translated_call {call : Call} (spelled : lower name = call.name) (word : call.name ≠ "mod") :
    call.translated lower name offset args = some (.call call.target args) := by
  have parsed {target : String} (known : functions.lookup call.name = some target)
      (plain : call.name ∉ ["not", "selected", "if"]) :
      (parseCall lower name offset args).toOption = some (.call target args) := by
    rw [parseCall_known (spelled ▸ known) (spelled ▸ plain)]
    rfl
  cases call
  case mod => exact absurd rfl word
  all_goals exact parsed rfl (by simp [Call.name])

theorem evaluate_pair {x y : Value} (evaluated : Reference.evaluateAll (Reference.call lib) resolve ctx args = .ok [x, y]) :
    ∃ left right, args = [left, right] ∧ Reference.evaluatePair (Reference.call lib) resolve ctx args = .ok (x, y) := by
  cases args with
  | nil => cases evaluated
  | cons left args =>
    rw [Reference.evaluateAll] at evaluated
    obtain ⟨first, isFirst, later⟩ := bind_ok_iff.mp evaluated
    obtain ⟨others, isOthers, both⟩ := bind_ok_iff.mp later
    obtain ⟨rfl, rfl⟩ := List.cons.inj (Except.ok.inj both)
    cases args with
    | nil => cases isOthers
    | cons right args =>
      rw [Reference.evaluateAll] at isOthers
      obtain ⟨second, isSecond, last⟩ := bind_ok_iff.mp isOthers
      obtain ⟨none, isNone, ends⟩ := bind_ok_iff.mp last
      obtain ⟨rfl, rfl⟩ := List.cons.inj (Except.ok.inj ends)
      cases args with
      | nil =>
        refine ⟨left, right, rfl, ?_⟩
        rw [Reference.evaluatePair, isFirst, isSecond]
        rfl
      | cons extra args =>
        rw [Reference.evaluateAll] at isNone
        obtain ⟨_, -, more⟩ := bind_ok_iff.mp isNone
        obtain ⟨_, -, cons⟩ := bind_ok_iff.mp more
        cases cons

/-- A call keeps its meaning exactly where it is safe. -/
theorem keeps_iff (xpath : XPath) (lib : Library) (lower : String → String)
    (resolve : Context → String → Except Failure Value) (ctx : Context) (call : Call) (name : String) (offset : ℕ)
    (args : List Expr) (spelled : lower name = call.name)
    (evaluated : Reference.evaluateAll (Reference.call lib) resolve ctx args = .ok (call.args.map Arg.value)) :
    call.Keeps xpath lib lower resolve ctx name offset args ↔ call.Safe xpath := by
  cases call with
  | substr source start stop =>
    rw [keeps_call (translated_call spelled (by simp [Call.name])) rfl evaluated]
    cases stop with
    | none => exact agrees_ok.trans (substr_from_iff source start)
    | some stop => exact agrees_ok.trans (substr_between_iff source start stop)
  | normalizeSpace source =>
    rw [keeps_call (translated_call spelled (by simp [Call.name])) rfl evaluated]
    cases source with
    | none => exact iff_of_false agrees_error (by rintro ⟨_, ⟨⟩, _⟩)
    | some a =>
      refine agrees_ok.trans ((trim_iff a fun s is => by rw [is]; rfl).trans ?_)
      show _ ↔ ∃ s, some a = some (.text s) ∧ _
      simp only [Option.some.injEq]
  | stringLength source =>
    rw [keeps_call (translated_call spelled (by simp [Call.name])) rfl evaluated]
    cases source with
    | none => exact iff_of_false agrees_error (by rintro ⟨_, ⟨⟩⟩)
    | some a =>
      refine agrees_ok.trans ((len_iff a _ fun s is => by rw [is]; rfl).trans ?_)
      show _ ↔ ∃ s, some a = some (.text s)
      simp only [Option.some.injEq]
  | contains source part =>
    rw [keeps_call (translated_call spelled (by simp [Call.name])) rfl evaluated]
    refine agrees_ok.trans (text2_iff source part ?_)
    rintro s t rfl rfl
    rw [Bool.eq_iff_iff, within_iff, decide_eq_true_iff]
    rfl
  | startsWith source part =>
    rw [keeps_call (translated_call spelled (by simp [Call.name])) rfl evaluated]
    refine agrees_ok.trans (text2_iff source part ?_)
    rintro s t rfl rfl
    rw [Bool.eq_iff_iff, List.isPrefixOf_iff_prefix, decide_eq_true_iff]
    rfl
  | endsWith source part =>
    rw [keeps_call (translated_call spelled (by simp [Call.name])) rfl evaluated]
    refine agrees_ok.trans (text2_iff source part ?_)
    rintro s t rfl rfl
    rw [Bool.eq_iff_iff, List.isSuffixOf_iff_suffix, decide_eq_true_iff]
    rfl
  | concat first second others =>
    rw [keeps_call (translated_call spelled (by simp [Call.name])) rfl evaluated]
    show (∃ value, (if 1 ≤ _ ∧ _ ≤ 99 then _ else _) = _ ∧ _) ↔ others.length ≤ 97
    have count : ((Call.concat first second others).args.map Arg.value).length = others.length + 2 := List.length_map ..
    rw [count]
    by_cases few : others.length ≤ 97
    · rw [if_pos ⟨by omega, by omega⟩]
      show (∃ value, Except.ok (Reference.concat lib _) = .ok value ∧ _) ↔ _
      rw [concat_text]
      exact agrees_ok.trans (iff_of_true (agrees_text.mpr rfl) few)
    · rw [if_neg fun both => few (by omega)]
      exact iff_of_false agrees_error few
  | mod dividend divisor =>
    obtain ⟨left, right, rfl, pair⟩ := evaluate_pair evaluated
    have word : lower name = "mod" := spelled
    have tree : (Call.mod dividend divisor).translated lower name offset [left, right] = some (.op "mod" [left, right]) := by
      show parseWord lower name left right = _
      rw [parseWord, word]
      rfl
    have value : Reference.evaluate (Reference.call lib) resolve ctx (.op "mod" [left, right]) =
        Reference.mod dividend.value divisor.value := by
      rw [Reference.evaluate]
      show Reference.evaluatePair (Reference.call lib) resolve ctx [left, right] >>= _ = _
      rw [pair]
      rfl
    refine Iff.trans ?_ (mod_iff dividend divisor)
    unfold Call.Keeps
    rw [tree]
    constructor
    · rintro ⟨_, v, ⟨⟩, is, agrees⟩
      exact ⟨v, value.symm.trans is, agrees⟩
    · rintro ⟨v, is, agrees⟩
      exact ⟨_, v, rfl, value.trans is, agrees⟩

def noContext : Context where
  values _ := none
  today := ""
  now := ""

def noReference (_ : Context) (path : String) : Except Failure Value := .error (.compile path)

def noXPath : XPath := ⟨fun _ => none, ""⟩

/-- A slice from the start. -/
theorem keeps_iff_front :
    (Call.substr (.text "abcdef") (.integer 0) (some (.integer 2))).Keeps noXPath noLibrary id noReference noContext "substr" 0
        [.lit (.text "abcdef"), .lit (.integer 0), .lit (.integer 2)] ↔
      (Call.substr (.text "abcdef") (.integer 0) (some (.integer 2))).Safe noXPath :=
  keeps_iff _ _ _ _ _ _ _ _ _ rfl rfl

/-- `substr('abcdef', 2, 4)` is `cdef` for the engine, and `cd` for XPath. -/
theorem substr_longer :
    Reference.substr [.text "abcdef", .integer 2, .integer 4] = .text "cdef" ∧
      ¬ (Call.substr (.text "abcdef") (.integer 2) (some (.integer 4))).Keeps noXPath noLibrary id noReference noContext
        "substr" 0 [.lit (.text "abcdef"), .lit (.integer 2), .lit (.integer 4)] := by
  refine ⟨by rfl, fun keeps => ?_⟩
  have evaluated : Reference.evaluateAll (Reference.call noLibrary) noReference noContext
      [.lit (.text "abcdef"), .lit (.integer 2), .lit (.integer 4)] = .ok [.text "abcdef", .integer 2, .integer 4] := by rfl
  obtain ⟨value, is, agrees⟩ := (keeps_call (translated_call rfl (by decide)) rfl evaluated).mp keeps
  obtain rfl := Except.ok.inj is
  obtain ⟨s, i, j, text, start, stop, same⟩ := (substr_between_iff (.text "abcdef") (.integer 2) (.integer 4)).mp agrees
  cases text
  cases start
  cases stop
  have length : "abcdef".toList.length = 6 := rfl
  unfold SameSlice at same
  rw [if_pos (by decide), if_neg (by decide), length] at same
  omega

end Engine

end DataCollectionLab.Xlsform
