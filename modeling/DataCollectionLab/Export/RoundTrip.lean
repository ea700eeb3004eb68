import DataCollectionLab.Crypto.CanonicalJson
import DataCollectionLab.Export.Cells
import DataCollectionLab.Form.Departures
import DataCollectionLab.Form.Digits
import DataCollectionLab.Lib.Except
import DataCollectionLab.Lib.Lists
import DataCollectionLab.Lib.Split
import DataCollectionLab.Lib.WholeDoubles

/-! An answer written as the text of a cell and read back: what comes back of it, for each data type. -/

namespace DataCollectionLab.Export

open Form Lib
open Crypto (Same)

inductive Kind where
  | flag | whole | number | codes | shape | text

def kindOf (dataType : String) : Option String → Kind
  | some part => if part = "size" then .whole else if part ∈ numericComponents then .number else .text
  | none =>
    if dataType = "boolean" then .flag
    else if dataType = "integer" then .whole
    else if dataType = "decimal" then .number
    else if dataType = "select_multiple" then .codes
    else if dataType = "geotrace" ∨ dataType = "geoshape" then .shape
    else .text

section Values

def Code (item : Json) : Prop := ∃ code, item = .str code ∧ code ≠ "" ∧ ' ' ∉ code.toList

def Leaf : Kind → Json → Prop
  | .flag, .bool _ => True
  | .whole, .int n => inRange n = true
  | .number, .int n => inRange n = true
  | .number, .float bits => (decode bits).isFinite = true
  | .codes, .arr items => ∀ item ∈ items, Code item
  | .text, .str _ => True
  | _, _ => False

def Structured (dataType : String) (parts : List String) (value : Json) : Prop :=
  ∃ fields, value = .obj fields ∧ (fields.map Prod.fst).Nodup ∧ ∀ part found, (part, found) ∈ fields →
    part ∈ parts ∧ (found = .null ∨ Leaf (kindOf dataType (some part)) found)

def Stored (dataType : String) (value : Json) : Prop :=
  match components dataType, kindOf dataType none with
  | some parts, _ => Structured dataType parts value
  | none, .shape => ∃ points, value = .arr points ∧ ∀ point ∈ points, Structured "geopoint" geopointParts point
  | none, kind => Leaf kind value

def fieldOf (value : Json) (part : String) : Json :=
  match value with
  | .obj fields => (fields.lookup part).getD .null
  | _ => .null

def Meant : Kind → Json → Scalar → Prop
  | _, .null, read => read = .null
  | .flag, .bool b, read => read = .flag b
  | .whole, .int n, read => read = .whole n
  | .number, .int n, read => read = .real (.finite n)
  | .number, .float bits, read => read = .real (decode bits)
  | .codes, .arr items, read =>
    if items = [] then read = .null else ∃ codes, read = .codes codes ∧ items = codes.map .str
  | .shape, value, read => ∃ again, read = .shape again ∧ Same value again
  | .text, .str text, read => read = if text = "" then .null else .text text
  | _, _, _ => False

def Itself (dataType : String) (value : Json) (read : Parsed) : Prop :=
  match components dataType with
  | none => ∃ scalar, read = .scalar scalar ∧ Meant (kindOf dataType none) value scalar
  | some parts => ∃ values, read = .parts values ∧ ∀ part ∈ parts, ∃ scalar, values part = some scalar ∧
      Meant (kindOf dataType (some part)) (fieldOf value part) scalar

def Exact : Kind → Json → Prop
  | .whole, .int n => Binary64.IsDouble (.finite n)
  | .number, .int n => Binary64.IsDouble (.finite n)
  | .codes, value => value ≠ .arr [.str encrypted]
  | .shape, value => value ≠ .arr []
  | _, _ => True

def Survives (dataType : String) (value : Json) : Prop :=
  match components dataType with
  | none => Exact (kindOf dataType none) value
  | some parts => ∀ part ∈ parts, Exact (kindOf dataType (some part)) (fieldOf value part)

end Values

section Reading

variable (py : Python)

/-- What `write_csv` writes of a cell. -/
def csvText : Cell → String
  | .empty => ""
  | cell => cellText py cell

def readCell (value : Json) (dataType : String) (part : Option String) : Except Failure Scalar := do
  parse py (.text (csvText py (← render py value dataType part))) dataType part

def readBack (value : Json) (dataType : String) : Except Failure Parsed :=
  match components dataType with
  | none => do return .scalar (← readCell py value dataType none)
  | some parts => do
    let values ← parts.mapM fun part => do return (part, ← readCell py value dataType (some part))
    return .parts fun name => values.lookup name

/-- What the language's library says of `repr` and of `json`. -/
structure Python.Documented (value : Json) : Prop where
  /-- The text of a float reads as the float. -/
  repr_float : ∀ q, Binary64.IsDouble (.finite q) → Reference.float (py.reprFloat (.finite q)) = some (.finite q)
  /-- The text of a value reads as the value. -/
  loads_dumps : ∃ again, py.loads (py.dumps value) = some again ∧ Same value again
  loads_empty : py.loads "" = none
  loads_word : py.loads encrypted = none

def Kind.cell : Kind → Json → Except Failure Cell
  | .flag, value => .ok (.int (if truthy value then 1 else 0))
  | .whole, value => do return .int (← intOf value)
  | .number, value => do return finite (← floatOf value)
  | .codes, value =>
    match value with
    | .arr (item :: rest) => .ok (.text (multipleSeparator.intercalate ((item :: rest).map (str py))))
    | _ => .ok .empty
  | .shape, value => .ok (if truthy value then .text (py.dumps value) else .empty)
  | .text, value => .ok (textCell (str py value))

def Kind.scalar : Kind → String → Except Failure Scalar
  | .flag, written => parseFlag py (.text written)
  | .whole, written => do return .whole (← Reference.intOfFloat (← cellFloat (.text written)))
  | .number, written => do return .real (← cellFloat (.text written))
  | .codes, written =>
    let items := (written.splitOn multipleSeparator).filter (· ≠ "")
    .ok (if items = [] then .null else .codes items)
  | .shape, written =>
    match py.loads written with
    | none => .error (.raised "JSONDecodeError")
    | some value => .ok (if truthy value then .shape value else .null)
  | .text, written => .ok (.text written)

def Kind.readBack (kind : Kind) (value : Json) : Except Failure Scalar := do
  let cell ← kind.cell py value
  if csvText py cell = "" then return .null
  else if csvText py cell = encrypted then return .text encrypted
  else kind.scalar py (csvText py cell)

end Reading

section Lemmas

variable {py : Python} {dataType : String} {value value' : Json}

theorem ifs_kindOf {α : Type} (f : Kind → α) :
    (if dataType = "boolean" then f .flag
      else if dataType = "integer" then f .whole
      else if dataType = "decimal" then f .number
      else if dataType = "select_multiple" then f .codes
      else if dataType = "geotrace" ∨ dataType = "geoshape" then f .shape
      else f .text) = f (kindOf dataType none) := by
  simp only [kindOf, apply_ite f]

theorem parse_empty (part : Option String) : parse py (.text "") dataType part = .ok .null := by
  exact if_pos (.inr rfl)

theorem parse_token (part : Option String) : parse py (.text encrypted) dataType part = .ok (.text encrypted) := by
  unfold parse
  rw [if_neg (by decide), if_pos rfl]

theorem parse_text {text : String} (some : text ≠ "") (other : text ≠ encrypted) (part : Option String) :
    parse py (.text text) dataType part = (kindOf dataType part).scalar py text := by
  unfold parse
  rw [if_neg (by simp [some]), if_neg (by simp [other])]
  cases part with
  | some part =>
    by_cases size : part = "size"
    · subst size
      rfl
    · by_cases number : part ∈ numericComponents
      · simp [kindOf, size, number, Kind.scalar]
      · simp [kindOf, size, number, Kind.scalar, cellText]
  | none => exact ifs_kindOf (·.scalar py text)

theorem component_eq {fields : List (String × Json)} {part : String} {found : Json} (held : fields.lookup part = some found)
    (answered : found ≠ .null) : component py (.obj fields) part = (kindOf dataType (some part)).cell py found := by
  unfold component
  simp only [held]
  cases found with
  | null => exact absurd rfl answered
  | _ =>
    simp only [kindOf]
    split_ifs <;> rfl

theorem render_eq (single : components dataType = none) (answered : value ≠ .null) :
    render py value dataType none = (kindOf dataType none).cell py value := by
  unfold render
  simp only [single, Option.isSome_none, Bool.false_eq_true, if_false]
  exact ifs_kindOf (·.cell py value)

theorem parse_readBack {kind : Kind} {part : Option String} (is : kindOf dataType part = kind)
    (rendered : render py value dataType part = kind.cell py value') :
    readCell py value dataType part = kind.readBack py value' := by
  unfold readCell Kind.readBack
  rw [rendered]
  congr 1
  funext cell
  by_cases empty : csvText py cell = ""
  · rw [empty, parse_empty, if_pos rfl]
    rfl
  by_cases token : csvText py cell = encrypted
  · rw [token, parse_token, if_neg (by decide), if_pos rfl]
    rfl
  · rw [parse_text empty token, is, if_neg empty, if_neg token]

end Lemmas

section Numbers

variable {py : Python}

theorem isDouble_decode (bits : Double) : Binary64.IsDouble (decode bits) := by
  unfold decode
  dsimp only
  split
  · split <;> trivial
  · have exponents : bits.toNat / 2 ^ 52 % 2 ^ 11 < 2047 := by omega
    have fractions : bits.toNat % 2 ^ 52 < 2 ^ 52 := Nat.mod_lt _ (by norm_num)
    have double : ∀ negative : Bool, ∀ q : ℚ, Binary64.IsDouble (.finite q) →
        Binary64.IsDouble (.finite (if negative then -q else q)) := by
      rintro (_ | _) q double
      · exact double
      · exact Binary64.isDouble_neg double
    apply double
    split
    · have short : |((bits.toNat % 2 ^ 52 : ℕ) : ℤ)| < 2 ^ 53 := by rw [Nat.abs_cast]; omega
      have subnormal := @Binary64.isDouble_mul_zpow _ (-1074) short (by norm_num) (by norm_num)
      rwa [Int.cast_natCast] at subnormal
    · have short : |((2 ^ 52 + bits.toNat % 2 ^ 52 : ℕ) : ℤ)| < 2 ^ 53 := by rw [Nat.abs_cast]; omega
      have normal := @Binary64.isDouble_mul_zpow _ (((bits.toNat / 2 ^ 52 % 2 ^ 11 : ℕ) : ℤ) - 1075) short (by omega) (by omega)
      rw [Int.cast_natCast] at normal
      push_cast at normal ⊢
      exact normal

theorem float_text {text : String} {d : Binary64} (reads : Reference.float text = some d) :
    text ≠ "" ∧ text ≠ encrypted := by
  have empty : Reference.float "" = none := by decide +kernel
  have token : Reference.float encrypted = none := by decide +kernel
  constructor
  · rintro rfl
    rw [empty] at reads
    cases reads
  · rintro rfl
    rw [token] at reads
    cases reads

theorem double_iff {n : ℤ} (range : inRange n = true) : Binary64.IsDouble (.finite n) ↔ Binary64.nearest n = n := by
  apply Binary64.isDouble_int_iff
  calc |(n : ℚ)| ≤ 2 ^ 63 := abs_le_of_inRange range
    _ < Binary64.limit := pow_lt_pow_right₀ (by norm_num) (by norm_num)

end Numbers

section Kinds

variable {py : Python}

theorem readBack_of_text {kind : Kind} {value : Json} {cell : Cell} (made : kind.cell py value = .ok cell)
    (some : csvText py cell ≠ "") (other : csvText py cell ≠ encrypted) :
    kind.readBack py value = kind.scalar py (csvText py cell) := by
  unfold Kind.readBack
  rw [made]
  show (if _ then _ else _) = _
  rw [if_neg some, if_neg other]

theorem readBack_of_empty {kind : Kind} {value : Json} {cell : Cell} (made : kind.cell py value = .ok cell)
    (empty : csvText py cell = "") : kind.readBack py value = .ok .null := by
  unfold Kind.readBack
  rw [made]
  exact if_pos empty

theorem flag_reads (b : Bool) : Kind.flag.readBack py (.bool b) = .ok (.flag b) := by
  have read : ∀ n : ℤ, inRange n = true → |n| ≤ 2 ^ 53 → Kind.flag.cell py (.bool b) = .ok (.int n) →
      Kind.flag.readBack py (.bool b) = .ok (.flag (n ≠ 0)) := by
    intro n range short made
    have number : Reference.float (toString n) = some (.finite n) := by
      rw [Reference.float_toString, ofInt_eq range, Binary64.nearest_intCast short]
    obtain ⟨some, other⟩ := float_text number
    rw [readBack_of_text made some other]
    show parseFlag py (.text (toString n)) = _
    simp only [parseFlag, cellFloat, number]
    simp
  cases b with
  | false => exact read 0 (by decide) (by norm_num) rfl
  | true => exact read 1 (by decide) (by norm_num) rfl

theorem whole_reads {n : ℤ} (range : inRange n = true) :
    Kind.whole.readBack py (.int n) = .ok (.whole (Binary64.truncated (Binary64.nearest n))) := by
  have number : Reference.float (toString n) = some (.finite (Binary64.nearest n)) := by
    rw [Reference.float_toString, ofInt_eq range]
  obtain ⟨some, other⟩ := float_text number
  rw [@readBack_of_text py .whole (.int n) (.int n) rfl some other]
  show (do return .whole (← Reference.intOfFloat (← cellFloat (.text (toString n)))) : Except Failure Scalar) = _
  simp only [cellFloat, number]
  rfl

theorem real_reads {value : Json} {q : ℚ} (repr : Reference.float (py.reprFloat (.finite q)) = some (.finite q))
    (converts : floatOf value = .ok (.finite q)) : Kind.number.readBack py value = .ok (.real (.finite q)) := by
  have made : Kind.number.cell py value = .ok (.float (.finite q)) := by
    show (do return finite (← floatOf value) : Except Failure Cell) = _
    rw [converts]
    rfl
  obtain ⟨some, other⟩ := float_text repr
  rw [readBack_of_text made some other]
  show (do return .real (← cellFloat (.text (py.reprFloat (.finite q)))) : Except Failure Scalar) = _
  simp only [cellFloat, repr]
  rfl

theorem text_reads (text : String) : Kind.text.readBack py (.str text) = .ok (if text = "" then .null else .text text) := by
  by_cases empty : text = ""
  · subst empty
    exact readBack_of_empty rfl rfl
  · have made : Kind.text.cell py (.str text) = .ok (.text text) := congrArg Except.ok (if_neg empty)
    rw [if_neg empty]
    by_cases token : text = encrypted
    · subst token
      unfold Kind.readBack
      rw [made]
      rfl
    · exact readBack_of_text made empty token

theorem codes_of_items {items : List Json} (codes : ∀ item ∈ items, Code item) :
    ∃ texts : List String, items = texts.map .str ∧ ∀ text ∈ texts, text ≠ "" ∧ ' ' ∉ text.toList := by
  induction items with
  | nil => exact ⟨[], rfl, by simp⟩
  | cons item items ih =>
    obtain ⟨text, rfl, some, apart⟩ := codes item List.mem_cons_self
    obtain ⟨texts, rfl, later⟩ := ih fun other member => codes other (List.mem_cons_of_mem _ member)
    refine ⟨text :: texts, rfl, ?_⟩
    intro other member
    rcases List.mem_cons.mp member with rfl | member
    · exact ⟨some, apart⟩
    · exact later other member

theorem str_texts (texts : List String) : (texts.map Json.str).map (str py) = texts := by
  rw [List.map_map]
  exact List.map_id' texts

theorem codes_reads {texts : List String} (codes : ∀ text ∈ texts, text ≠ "" ∧ ' ' ∉ text.toList) :
    Kind.codes.readBack py (.arr (texts.map .str)) = .ok (
      if texts = [] then .null else if texts = [encrypted] then .text encrypted else .codes texts) := by
  by_cases none : texts = []
  · subst none
    exact readBack_of_empty rfl rfl
  have split : (multipleSeparator.intercalate texts).splitOn multipleSeparator = texts :=
    @splitOn_intercalate ' ' texts none fun text member => (codes text member).2
  have made : Kind.codes.cell py (.arr (texts.map .str)) = .ok (.text (multipleSeparator.intercalate texts)) := by
    cases texts with
    | nil => exact absurd rfl none
    | cons text texts =>
      show Except.ok (Cell.text (multipleSeparator.intercalate (((text :: texts).map Json.str).map (str py)))) = _
      rw [str_texts]
  rw [if_neg none]
  by_cases token : texts = [encrypted]
  · subst token
    unfold Kind.readBack
    rw [made]
    rfl
  have some : multipleSeparator.intercalate texts ≠ "" := by
    intro empty
    rw [empty, show "".splitOn multipleSeparator = [""] from splitOn_char ' ' ""] at split
    exact (codes "" (by rw [← split]; exact List.mem_cons_self)).1 rfl
  have other : multipleSeparator.intercalate texts ≠ encrypted := by
    intro word
    rw [word, show encrypted.splitOn multipleSeparator = [encrypted] from splitOn_char ' ' encrypted] at split
    exact token split.symm
  have kept : texts.filter (· ≠ "") = texts :=
    List.filter_eq_self.mpr fun text member => by simpa using (codes text member).1
  have read : Kind.codes.scalar py (multipleSeparator.intercalate texts) =
      .ok (if texts.filter (· ≠ "") = [] then .null else .codes (texts.filter (· ≠ ""))) := by
    unfold Kind.scalar
    simp only [split]
  rw [kept, if_neg none] at read
  rw [readBack_of_text made some other, if_neg token]
  exact read

theorem shape_reads {points : List Json} (filled : points ≠ []) (library : py.Documented (.arr points)) :
    ∃ again, Kind.shape.readBack py (.arr points) = .ok (.shape again) ∧ Same (.arr points) again := by
  obtain ⟨again, loads, same⟩ := library.loads_dumps
  have made : Kind.shape.cell py (.arr points) = .ok (.text (py.dumps (.arr points))) := by
    show Except.ok (if truthy (.arr points) then _ else _) = _
    rw [if_pos (by simpa [truthy] using filled)]
  have nonempty : py.dumps (.arr points) ≠ "" := by
    intro empty
    rw [empty, library.loads_empty] at loads
    cases loads
  have other : py.dumps (.arr points) ≠ encrypted := by
    intro word
    rw [word, library.loads_word] at loads
    cases loads
  have again_truthy : truthy again = true := by
    cases same with
    | arr items => 
      cases items with
      | nil => exact absurd rfl filled
      | cons _ _ => rfl
  refine ⟨again, ?_, same⟩
  rw [readBack_of_text made nonempty other]
  show (match py.loads (py.dumps (.arr points)) with | none => _ | some value => _) = _
  rw [loads]
  exact congrArg Except.ok (if_pos again_truthy)

theorem returned_iff {x : Except Failure Scalar} {scalar : Scalar} (is : x = .ok scalar) {P : Scalar → Prop} :
    (∃ read, x = .ok read ∧ P read) ↔ P scalar := by
  subst is
  constructor
  · rintro ⟨read, same, holds⟩
    cases same
    exact holds
  · exact fun holds => ⟨scalar, rfl, holds⟩

theorem nearest_iff {n : ℤ} (range : inRange n = true) :
    Scalar.real (.finite (Binary64.nearest n)) = .real (.finite n) ↔ Binary64.IsDouble (.finite n) := by
  rw [double_iff range]
  constructor
  · intro same
    injection same with same
    injection same
  · intro same
    rw [same]

theorem whole_iff {n : ℤ} (range : inRange n = true) :
    (∃ scalar, Kind.whole.readBack py (.int n) = .ok scalar ∧ scalar = .whole n) ↔ Binary64.IsDouble (.finite n) := by
  rw [returned_iff (whole_reads range), double_iff range, ← Binary64.truncated_nearest_iff]
  exact ⟨Scalar.whole.inj, congrArg _⟩

theorem integral_iff {n : ℤ} (range : inRange n = true)
    (floats : ∀ q, Binary64.IsDouble (.finite q) → Reference.float (py.reprFloat (.finite q)) = some (.finite q)) :
    (∃ scalar, Kind.number.readBack py (.int n) = .ok scalar ∧ scalar = .real (.finite n)) ↔
      Binary64.IsDouble (.finite n) := by
  have nearest := ofInt_eq range
  have double : Binary64.IsDouble (.finite (Binary64.nearest n)) := nearest ▸ Binary64.isDouble_round n
  have converts : floatOf (.int n) = .ok (.finite (Binary64.nearest n)) := by
    show Reference.toFloat (.int n) = _
    rw [@toFloat_eq (.int n) range]
    exact congrArg Except.ok nearest
  rw [returned_iff (real_reads (floats _ double) converts)]
  exact nearest_iff range

theorem codes_iff {texts : List String} (codes : ∀ text ∈ texts, text ≠ "" ∧ ' ' ∉ text.toList) :
    (∃ scalar, Kind.codes.readBack py (.arr (texts.map .str)) = .ok scalar ∧ Meant .codes (.arr (texts.map .str)) scalar) ↔
      Json.arr (texts.map .str) ≠ .arr [.str encrypted] := by
  rw [returned_iff (codes_reads codes)]
  show (if texts.map Json.str = [] then _ else _) ↔ _
  by_cases none : texts = []
  · subst none
    exact iff_of_true rfl (by simp)
  rw [if_neg (by simpa using none), if_neg none]
  by_cases token : texts = [encrypted]
  · subst token
    rw [if_pos rfl]
    refine iff_of_false ?_ (by simp)
    rintro ⟨other, read, -⟩
    cases read
  · rw [if_neg token]
    refine iff_of_true ⟨texts, rfl, rfl⟩ ?_
    intro same
    injection same with same
    have back := congrArg (List.map (str py)) same
    rw [str_texts] at back
    exact token back

theorem leaf_iff {kind : Kind} {value : Json}
    (floats : ∀ q, Binary64.IsDouble (.finite q) → Reference.float (py.reprFloat (.finite q)) = some (.finite q))
    (leaf : Leaf kind value) :
    (∃ scalar, kind.readBack py value = .ok scalar ∧ Meant kind value scalar) ↔ Exact kind value := by
  unfold Leaf at leaf
  split at leaf
  · rename_i b
    rw [returned_iff (flag_reads b)]
    exact iff_of_true rfl trivial
  · exact whole_iff leaf
  · exact integral_iff leaf floats
  · rename_i bits
    cases is : decode bits with
    | inf negative => rw [is] at leaf; cases leaf
    | nan => rw [is] at leaf; cases leaf
    | finite q =>
      have double := isDouble_decode bits
      rw [is] at double
      have converts : floatOf (.float bits) = .ok (.finite q) := congrArg Except.ok is
      rw [returned_iff (real_reads (floats q double) converts)]
      exact iff_of_true (congrArg Scalar.real is.symm) trivial
  · rename_i items
    obtain ⟨texts, rfl, codes⟩ := codes_of_items leaf
    exact codes_iff codes
  · rename_i text
    rw [returned_iff (text_reads text)]
    exact iff_of_true rfl trivial
  · exact leaf.elim

theorem shape_iff {points : List Json} (library : py.Documented (.arr points)) :
    (∃ scalar, Kind.shape.readBack py (.arr points) = .ok scalar ∧ Meant .shape (.arr points) scalar) ↔
      Exact .shape (.arr points) := by
  by_cases empty : points = []
  · subst empty
    have read : Kind.shape.readBack py (.arr []) = .ok .null := readBack_of_empty rfl rfl
    rw [returned_iff read]
    refine iff_of_false ?_ (fun exact => exact rfl)
    rintro ⟨again, read, -⟩
    cases read
  · obtain ⟨again, read, same⟩ := shape_reads empty library
    rw [returned_iff read]
    exact iff_of_true ⟨again, rfl, same⟩ (by simpa [Exact] using empty)

end Kinds

section Answers

variable {py : Python} {dataType : String} {value : Json}

theorem leaf_answered {kind : Kind} : ¬ Leaf kind .null := by
  cases kind <;> exact id

theorem stored_answered (stored : Stored dataType value) : value ≠ .null := by
  rintro rfl
  unfold Stored at stored
  split at stored
  · obtain ⟨fields, same, -⟩ := stored
    cases same
  · obtain ⟨points, same, -⟩ := stored
    cases same
  · exact leaf_answered stored

theorem part_iff {parts : List String} {part : String}
    (floats : ∀ q, Binary64.IsDouble (.finite q) → Reference.float (py.reprFloat (.finite q)) = some (.finite q))
    (stored : Structured dataType parts value) :
    (∃ scalar, readCell py value dataType (some part) = .ok scalar ∧
        Meant (kindOf dataType (some part)) (fieldOf value part) scalar) ↔
      Exact (kindOf dataType (some part)) (fieldOf value part) := by
  obtain ⟨fields, rfl, -, held⟩ := stored
  have unanswered : fieldOf (.obj fields) part = .null → component py (.obj fields) part = .ok .empty := by
    intro missing
    have null : (fields.lookup part).getD .null = .null := missing
    cases found : fields.lookup part with
    | none => simp only [component, found]
    | some value =>
      rw [found] at null
      obtain rfl : value = .null := null
      simp only [component, found]
  by_cases missing : fieldOf (.obj fields) part = .null
  · have read : readCell py (.obj fields) dataType (some part) = .ok .null := by
      unfold readCell
      have rendered : render py (.obj fields) dataType (some part) = .ok .empty := unanswered missing
      rw [rendered]
      exact @parse_empty py dataType (some part)
    rw [returned_iff read, missing]
    refine iff_of_true ?_ ?_
    · unfold Meant
      rfl
    · unfold Exact
      split <;> simp_all
  · cases found : fields.lookup part with
    | none => exact absurd (congrArg (·.getD Json.null) found) missing
    | some value =>
      have field : fieldOf (.obj fields) part = value := congrArg (·.getD Json.null) found
      rw [field] at missing ⊢
      rcases (held part value (mem_of_lookup found)).2 with null | leaf
      · exact absurd null missing
      have rendered : render py (.obj fields) dataType (some part) = (kindOf dataType (some part)).cell py value :=
        component_eq found missing
      rw [parse_readBack rfl rendered]
      exact leaf_iff floats leaf

theorem single_iff (single : components dataType = none) (library : py.Documented value) (stored : Stored dataType value) :
    (∃ scalar, readCell py value dataType none = .ok scalar ∧ Meant (kindOf dataType none) value scalar) ↔
      Exact (kindOf dataType none) value := by
  rw [parse_readBack rfl (render_eq single (stored_answered stored))]
  unfold Stored at stored
  rw [single] at stored
  cases is : kindOf dataType none with
  | shape =>
    rw [is] at stored
    obtain ⟨points, rfl, -⟩ := stored
    exact shape_iff library
  | _ =>
    rw [is] at stored
    exact leaf_iff library.repr_float stored

theorem parts_iff {parts : List String} {values : List (String × Scalar)}
    (read : parts.mapM (fun part => do return (part, ← readCell py value dataType (some part))) = .ok values) :
    ∀ part ∈ parts, ∃ scalar, readCell py value dataType (some part) = .ok scalar ∧ values.lookup part = some scalar := by
  have pairs := mapM_ok_iff.mp read
  clear read
  induction pairs with
  | nil => simp
  | cons first later ih =>
    rename_i named entry parts values
    obtain ⟨scalar, reads, same⟩ := bind_ok_iff.mp first
    obtain rfl : (named, scalar) = entry := Except.ok.inj same
    intro part member
    by_cases here : part = named
    · subst here
      exact ⟨scalar, reads, by simp⟩
    · obtain ⟨other, reads, held⟩ := ih part ((List.mem_cons.mp member).resolve_left here)
      exact ⟨other, reads, by rw [List.lookup_cons, beq_false_of_ne here]; exact held⟩

/-- The text of an answer's cells gives the answer back, up to the four normalisations, exactly where every integer in it
is a double, its codes are not the token alone and its trace has a point. -/
theorem readBack_iff (library : py.Documented value) (stored : Stored dataType value) :
    (∃ read, readBack py value dataType = .ok read ∧ Itself dataType value read) ↔ Survives dataType value := by
  unfold readBack Itself Survives
  cases parts : components dataType with
  | none =>
    show _ ↔ Exact (kindOf dataType none) value
    rw [← single_iff parts library stored]
    constructor
    · rintro ⟨read, made, scalar, rfl, meant⟩
      obtain ⟨other, reads, same⟩ := bind_ok_iff.mp made
      cases same
      exact ⟨scalar, reads, meant⟩
    · rintro ⟨scalar, reads, meant⟩
      exact ⟨.scalar scalar, bind_ok_iff.mpr ⟨scalar, reads, rfl⟩, scalar, rfl, meant⟩
  | some parts' =>
    have structured : Structured dataType parts' value := by
      unfold Stored at stored
      rwa [parts] at stored
    show _ ↔ ∀ part ∈ parts', Exact (kindOf dataType (some part)) (fieldOf value part)
    constructor
    · rintro ⟨read, made, values, rfl, meant⟩ part member
      obtain ⟨pairs, each, same⟩ := bind_ok_iff.mp made
      cases same
      obtain ⟨scalar, reads, held⟩ := parts_iff each part member
      obtain ⟨other, found, means⟩ := meant part member
      replace found : pairs.lookup part = some other := found
      rw [held] at found
      obtain rfl := Option.some.inj found
      exact (part_iff library.repr_float structured).mp ⟨scalar, reads, means⟩
    · intro exact
      have each : ∀ part ∈ parts', ∃ scalar, readCell py value dataType (some part) = .ok scalar ∧
          Meant (kindOf dataType (some part)) (fieldOf value part) scalar :=
        fun part member => (part_iff library.repr_float structured).mpr (exact part member)
      obtain ⟨pairs, read⟩ := (@exists_mapM_ok_iff _ _ _
        (fun part => do return (part, ← readCell py value dataType (some part))) parts').mpr fun part member => by
          obtain ⟨scalar, reads, -⟩ := each part member
          exact ⟨(part, scalar), bind_ok_iff.mpr ⟨scalar, reads, rfl⟩⟩
      refine ⟨.parts fun name => pairs.lookup name, bind_ok_iff.mpr ⟨pairs, read, rfl⟩, _, rfl, fun part member => ?_⟩
      obtain ⟨scalar, reads, means⟩ := each part member
      obtain ⟨other, again, held⟩ := parts_iff read part member
      rw [reads] at again
      cases again
      exact ⟨scalar, held, means⟩

end Answers

/-! ### A library that writes every digit -/

def lastPlace : ℕ := 1074

def allDigits (q : ℚ) : String :=
  String.ofList ((toString (⌊q * 2 ^ lastPlace⌋ * 5 ^ lastPlace)).toList ++ "e-1074".toList)

theorem float_allDigits {q : ℚ} (double : Binary64.IsDouble (.finite q)) : Reference.float (allDigits q) = some (.finite q) := by
  obtain ⟨m, whole⟩ := Binary64.exists_mul_least double.1
  have denotes := @Numeral.decimal_scaled (m * 5 ^ lastPlace) "1074".toList (by simp) (List.all_eq_true.mp rfl)
  have text : (allDigits q).toList = (toString (m * 5 ^ lastPlace)).toList ++ 'e' :: '-' :: "1074".toList := by
    rw [allDigits, String.toList_ofList, show q * 2 ^ lastPlace = m from whole, Int.floor_intCast]
    rfl
  have value : ((m * 5 ^ lastPlace : ℤ) : ℚ) * 10 ^ (-(lastPlace : ℤ)) = q := by
    have ten : (10 : ℚ) ^ (-(lastPlace : ℤ)) = (5 ^ lastPlace * 2 ^ lastPlace)⁻¹ := by
      rw [zpow_neg, zpow_natCast, ← mul_pow]
      norm_num
    rw [ten, Int.cast_mul, ← whole, Int.cast_pow, Int.cast_ofNat]
    change q * 2 ^ lastPlace * 5 ^ lastPlace * (5 ^ lastPlace * 2 ^ lastPlace)⁻¹ = q
    field_simp
  have places : Nat.ofDigitChars 10 "1074".toList 0 = lastPlace := rfl
  rw [places, value, ← text] at denotes
  rw [← Binary64.round_eq double]
  apply Reference.float_plain _ denotes
  have marks : ∀ c ∈ 'e' :: '-' :: "1074".toList, Numeral.Plain c := Numeral.plain_all rfl
  intro c member
  rw [text] at member
  rcases List.mem_append.mp member with digit | mark
  · exact Numeral.plain_toString _ c digit
  · exact marks c mark

def point : Json := .obj [("lat", .float 0x4038800000000000), ("lon", .int 67)]

/-- `json` and `repr` as they are on the point and its numbers; every other number is written in full. -/
def pointPython : Python where
  repr _ := ""
  reprFloat
    | .finite q => if q = 49 / 2 then "24.5" else if q = 67 then "67.0" else allDigits q
    | .inf _ => "inf"
    | .nan => "nan"
  dumps _ := "\x7b\"lat\":24.5,\"lon\":67\x7d"
  loads text := if text = "\x7b\"lat\":24.5,\"lon\":67\x7d" then some point else none
  lower text := text

theorem point_repr : ∀ q, Binary64.IsDouble (.finite q) →
    Reference.float (pointPython.reprFloat (.finite q)) = some (.finite q) := by
  intro q double
  show Reference.float (if q = 49 / 2 then "24.5" else if q = 67 then "67.0" else allDigits q) = _
  by_cases latitude : q = 49 / 2
  · have denotes : Numeral.decimal "24.5".toList = some (49 / 2) := by decide +kernel
    rw [if_pos latitude, Reference.float_plain (Numeral.plain_all rfl) denotes, ← Binary64.round_eq double, latitude]
  by_cases longitude : q = 67
  · have denotes : Numeral.decimal "67.0".toList = some 67 := by decide +kernel
    rw [if_neg latitude, if_pos longitude, Reference.float_plain (Numeral.plain_all rfl) denotes, ← Binary64.round_eq double, longitude]
  · rw [if_neg latitude, if_neg longitude]
    exact float_allDigits double

theorem point_documented : pointPython.Documented point where
  repr_float := point_repr
  loads_dumps := by
    refine ⟨point, by simp [pointPython], ?_⟩
    apply Same.obj (List.Perm.refl _) (List.Perm.refl _) rfl
    exact .cons (.float _) (.cons (.int 67) .nil)
  loads_empty := by decide
  loads_word := by decide

theorem point_readBack : ∃ read, readBack pointPython point "geopoint" = .ok read ∧ Itself "geopoint" point read := by
  have latitude : (decode 0x4038800000000000).isFinite = true := by decide +kernel
  have longitude : Binary64.IsDouble (.finite ((67 : ℤ) : ℚ)) := (double_iff (by decide)).mpr (Binary64.nearest_intCast (by norm_num))
  have stored : Stored "geopoint" point := by
    refine ⟨_, rfl, by decide, ?_⟩
    intro part found member
    rcases List.mem_cons.mp member with same | member
    · cases same
      exact ⟨by decide, .inr latitude⟩
    · cases List.mem_singleton.mp member
      exact ⟨by decide, .inr (by decide : inRange 67 = true)⟩
  have survives : Survives "geopoint" point := by
    intro part member
    have named : part = "lat" ∨ part = "lon" ∨ part = "alt" ∨ part = "accuracy" := by simpa [geopointParts] using member
    rcases named with rfl | rfl | rfl | rfl
    · exact trivial
    · exact longitude
    · exact trivial
    · exact trivial
  exact (readBack_iff point_documented stored).mpr survives

/-- `int(float("9007199254740993"))`. -/
theorem odd_integer : Stored "integer" (.int 9007199254740993) ∧
    readBack pointPython (.int 9007199254740993) "integer" = .ok (.scalar (.whole 9007199254740992)) ∧
      ¬ Itself "integer" (.int 9007199254740993) (.scalar (.whole 9007199254740992)) := by
  have range : inRange 9007199254740993 = true := by decide
  have below : Binary64.truncated (Binary64.nearest (9007199254740993 : ℤ)) = 9007199254740992 := by decide +kernel
  have read := @whole_reads pointPython _ range
  rw [below] at read
  refine ⟨range, ?_, ?_⟩
  · show (do return Parsed.scalar (← readCell pointPython (.int 9007199254740993) "integer" none) : Except Failure Parsed) = _
    rw [@parse_readBack pointPython "integer" _ (.int 9007199254740993) .whole none rfl rfl, read]
    rfl
  · rintro ⟨scalar, same, meant⟩
    cases same
    have whole : Scalar.whole 9007199254740992 = .whole 9007199254740993 := meant
    injection whole with whole
    exact absurd whole (by decide)

end DataCollectionLab.Export
