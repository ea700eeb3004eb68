import DataCollectionLab.Export.Names
import DataCollectionLab.Export.Shape
import DataCollectionLab.Form.Digits
import DataCollectionLab.Form.Dates
import DataCollectionLab.Lib.FirstFree

/-!
Stata's and SPSS's columns: what each is stored as, and a name of at most 32 characters that no other column has,
case ignored.
-/

namespace DataCollectionLab.Export

open Form Lib

structure Letters (py : Python) where
  /-- `str.isalpha` of one character. -/
  isalpha : Char → Bool
  /-- `str.isalnum` of one character. -/
  isalnum : Char → Bool
  alnum : ∀ c, isalpha c = true → isalnum c = true
  letter : isalpha 'v' = true
  /-- An underscore and a digit have no case, and none before them is read by what follows. -/
  lower_append : ∀ front back : String, (∀ c ∈ back.toList, c = '_' ∨ c.isDigit = true) →
    py.lower (front ++ back) = py.lower front ++ back

namespace Statistical

def nameLimit : ℕ := 32

def labelLimit : ℕ := 80

/-- `sys.maxsize`: no sequence has more elements. -/
def maxsize : ℕ := 2 ^ 63 - 1

def numericTypes : List String := ["integer", "decimal", "boolean"]

def numericMeta : List String := ["form_version", "instance_index"]

inductive Storage where
  | numeric | string | date
  deriving DecidableEq, Repr

structure StatColumn where
  name : String
  source : String
  storage : Storage
  declaredStorage : Storage
  changedBecause : Option String
  label : Option String
  deriving DecidableEq

def declaredStorage (column : Column) : Storage :=
  if column.source = .label then .string
  else if column.source = .count then .numeric
  else if column.source = .meta_ then
    if column.fieldId.getD column.name ∈ numericMeta then .numeric else .string
  else
    match column.component with
    | some part => if part ∈ numericComponents then .numeric else .string
    | none =>
      if column.dataType.getD "" ∈ numericTypes then .numeric
      else if column.dataType = some "date" then .date
      else .string

/-- `_as_date`, whether it finds one. -/
def asDate (py : Python) (cell : Cell) : Bool := (Reference.fromisoformat (cellText py cell).toList).isSome

def forcedString (py : Python) (declared : Storage) (cells : List Cell) : Option String :=
  if declared = .string then none
  else if cells.any (· = .text encrypted) then some "holds ENCRYPTED, which a numeric column cannot"
  else if declared = .date ∧ cells.any (fun cell => cell ≠ .empty && !asDate py cell) then
    some "holds a value that is not a valid date"
  else none

def variableLabel (column : Column) : Option String :=
  column.label.map fun text =>
    let qualifier := column.component.orElse fun _ => if column.source = .label then some "label" else none
    let label := match qualifier with
      | none => text
      | some qualifier => text ++ " (" ++ qualifier ++ ")"
    if label.length ≤ labelLimit then label else String.ofList (label.toList.take (labelLimit - 1)) ++ "…"

section Names

variable {py : Python} (letters : Letters py)

def safe (wanted : String) : List Char :=
  let legal := wanted.toList.map fun c => if letters.isalnum c then c else '_'
  match legal with
  | [] => 'v' :: '_' :: legal
  | first :: _ => if letters.isalpha first then legal else 'v' :: '_' :: legal

/-- `text[:stop]`; a negative stop counts from the end. -/
def sliceTo (text : List Char) (stop : ℤ) : List Char :=
  if 0 ≤ stop then text.take stop.toNat else text.take (text.length - (-stop).toNat)

def serialSuffix (serial : ℕ) : String := "_" ++ toString serial

/-- The names that `_claim` tries: the front of the safe one, then with a serial for its tail. -/
def candidate (safe : List Char) : ℕ → String
  | 0 => String.ofList (safe.take nameLimit)
  | n + 1 =>
    let suffix := serialSuffix (n + 2)
    String.ofList (sliceTo safe (nameLimit - suffix.length)) ++ suffix

/-- `_claim`, none where its loop is not over after two tries more than names are taken. -/
def claim (taken : List String) (wanted : String) : Option String :=
  firstFree (candidate (safe letters wanted)) (fun name => decide (py.lower name ∉ taken)) (1 + taken.length + 1) 0

end Names

/-- A table whose rows are as wide as its columns, which are no more than a sequence has. -/
structure Grid where
  columns : List Column
  rows : List (List Cell)
  full : ∀ row ∈ rows, row.length = columns.length
  fits : columns.length ≤ maxsize

section Columns

variable {py : Python} (letters : Letters py) (rows : List (List Cell))

def statColumn (index : ℕ) (column : Column) (name : String) : StatColumn :=
  let declared := declaredStorage column
  let reason := forcedString py declared (rows.filterMap (·[index]?))
  { name := name, source := column.name, storage := if reason.isSome then .string else declared
    declaredStorage := declared, changedBecause := reason, label := variableLabel column }

def planFrom : List String → ℕ → List Column → Option (List StatColumn)
  | _, _, [] => some []
  | taken, index, column :: rest => do
    let name ← claim letters taken column.name
    let later ← planFrom (py.lower name :: taken) (index + 1) rest
    return @statColumn py rows index column name :: later

/-- `plan_columns`, none where a search for a name goes on. -/
def planColumns (grid : Grid) : Option (List StatColumn) := planFrom letters grid.rows [] 0 grid.columns

end Columns

section Claims

variable {py : Python} {letters : Letters py}

theorem safe_starts (letters : Letters py) (wanted : String) :
    ∃ first rest, safe letters wanted = first :: rest ∧ letters.isalpha first = true := by
  unfold safe
  dsimp only
  split
  · exact ⟨'v', _, rfl, letters.letter⟩
  · rename_i first rest is
    rw [is]
    by_cases alpha : letters.isalpha first = true
    · rw [if_pos alpha]
      exact ⟨first, rest, rfl, alpha⟩
    · rw [if_neg alpha]
      exact ⟨'v', _, rfl, letters.letter⟩

theorem serialSuffix_toList (serial : ℕ) : (serialSuffix serial).toList = '_' :: Nat.toDigits 10 serial := by
  rw [serialSuffix, String.toList_append, Nat.toString_eq_repr, Nat.toList_repr]
  rfl

theorem serialSuffix_caseless (serial : ℕ) : ∀ c ∈ (serialSuffix serial).toList, c = '_' ∨ c.isDigit = true := by
  intro c member
  rw [serialSuffix_toList] at member
  rcases List.mem_cons.mp member with rfl | digit
  · exact .inl rfl
  · exact .inr (Nat.isDigit_of_mem_toDigits (by decide) (by decide) digit)

theorem underscore_not_digit (serial : ℕ) : '_' ∉ Nat.toDigits 10 serial := by
  intro member
  have digit := Nat.isDigit_of_mem_toDigits (by decide) (by decide) member
  exact absurd digit (by decide)

theorem append_serialSuffix_inj {front front' : String} {m n : ℕ}
    (same : front ++ serialSuffix m = front' ++ serialSuffix n) : m = n := by
  have lists := congrArg String.toList same
  rw [String.toList_append, String.toList_append, serialSuffix_toList, serialSuffix_toList] at lists
  obtain ⟨-, digits⟩ := append_cons_inj (underscore_not_digit m) (underscore_not_digit n) lists
  have values := congrArg (Nat.ofDigitChars 10 · 0) digits
  simpa only [Nat.ofDigitChars_ten_toDigits] using values

theorem lower_candidate (letters : Letters py) (safe : List Char) (n : ℕ) :
    py.lower (candidate safe (n + 1)) =
      py.lower (String.ofList (sliceTo safe (nameLimit - (serialSuffix (n + 2)).length))) ++ serialSuffix (n + 2) :=
  letters.lower_append _ _ (serialSuffix_caseless (n + 2))

theorem candidate_apart (letters : Letters py) (safe : List Char) (m n : ℕ) (first : 1 ≤ m) (first' : 1 ≤ n)
    (same : py.lower (candidate safe m) = py.lower (candidate safe n)) : m = n := by
  obtain ⟨m, rfl⟩ := Nat.exists_eq_add_of_le' first
  obtain ⟨n, rfl⟩ := Nat.exists_eq_add_of_le' first'
  rw [lower_candidate letters, lower_candidate letters] at same
  have serials := append_serialSuffix_inj same
  omega

theorem claim_ends (letters : Letters py) (taken : List String) (wanted : String) :
    ∃ name, claim letters taken wanted = some name :=
  firstFree_ends taken (candidate_apart letters (safe letters wanted))

structure Legal (letters : Letters py) (name : String) : Prop where
  short : name.length ≤ nameLimit
  lettered : ∃ first ∈ name.toList.head?, letters.isalpha first = true

theorem length_serialSuffix {serial : ℕ} (bounded : serial ≤ maxsize + 2) : (serialSuffix serial).length ≤ 20 := by
  have digits : (Nat.toDigits 10 serial).length ≤ 19 := by
    apply (Nat.length_toDigits_le_iff (by decide) (by decide)).mpr
    unfold maxsize at bounded
    omega
  rw [← String.length_toList, serialSuffix_toList, List.length_cons]
  omega

theorem candidate_legal {safe : List Char} {first : Char} {rest : List Char} (is : safe = first :: rest)
    (alpha : letters.isalpha first = true) {n : ℕ} (bounded : n ≤ maxsize + 1) : Legal letters (candidate safe n) := by
  subst is
  cases n with
  | zero =>
    refine ⟨?_, first, ?_, alpha⟩
    · rw [candidate, String.length_ofList, List.length_take]
      exact Nat.min_le_left _ _
    · rw [candidate, String.toList_ofList]
      rfl
  | succ n =>
    have suffix : (serialSuffix (n + 2)).length ≤ 20 := length_serialSuffix (by omega)
    have kept : sliceTo (first :: rest) (nameLimit - (serialSuffix (n + 2)).length) =
        (first :: rest).take (nameLimit - (serialSuffix (n + 2)).length) := by
      unfold sliceTo nameLimit
      rw [if_pos (by omega)]
      congr 1
      omega
    rw [candidate, kept]
    refine ⟨?_, first, ?_, alpha⟩
    · rw [String.length_append, String.length_ofList, List.length_take]
      unfold nameLimit
      omega
    · obtain ⟨more, room⟩ := Nat.exists_eq_add_of_lt (show 0 < nameLimit - (serialSuffix (n + 2)).length by unfold nameLimit; omega)
      rw [String.toList_append, String.toList_ofList, room, Nat.zero_add, List.take_succ_cons]
      rfl

theorem claim_spec {taken : List String} {wanted name : String} (given : claim letters taken wanted = some name)
    (few : taken.length < maxsize) : py.lower name ∉ taken ∧ Legal letters name := by
  obtain ⟨unused, n, -, within, rfl⟩ := firstFree_found given
  obtain ⟨first, rest, is, alpha⟩ := safe_starts letters wanted
  exact ⟨of_decide_eq_true unused, candidate_legal is alpha (by omega)⟩

theorem planFrom_spec (letters : Letters py) (rows : List (List Cell)) (columns : List Column) (taken : List String) (index : ℕ)
    (fits : taken.length + columns.length ≤ maxsize) :
    ∃ planned, planFrom letters rows taken index columns = some planned ∧ planned.map (·.source) = columns.map (·.name) ∧
      (planned.map fun c => py.lower c.name).Nodup ∧ ∀ c ∈ planned, py.lower c.name ∉ taken ∧ Legal letters c.name := by
  induction columns generalizing taken index with
  | nil => exact ⟨[], rfl, rfl, List.nodup_nil, by simp⟩
  | cons column rest ih =>
    rw [List.length_cons] at fits
    obtain ⟨name, given⟩ := claim_ends letters taken column.name
    obtain ⟨unused, legal⟩ := claim_spec given (by omega)
    obtain ⟨later, rests, sources, distinct, spec⟩ := ih (py.lower name :: taken) (index + 1) (by rw [List.length_cons]; omega)
    refine ⟨@statColumn py rows index column name :: later, ?_, ?_, ?_, ?_⟩
    · rw [planFrom, given]
      show (planFrom letters rows (py.lower name :: taken) (index + 1) rest).bind _ = _
      rw [rests]
      rfl
    · rw [List.map_cons, List.map_cons, sources]
      rfl
    · rw [List.map_cons]
      apply List.nodup_cons.mpr
      refine ⟨?_, distinct⟩
      intro listed
      obtain ⟨c, member, same⟩ := List.mem_map.mp listed
      exact (spec c member).1 (same ▸ List.mem_cons_self)
    · rintro c (_ | ⟨_, member⟩)
      · exact ⟨unused, legal⟩
      · exact ⟨fun before => (spec c member).1 (List.mem_cons_of_mem _ before), (spec c member).2⟩

end Claims

section Ascii

def asciiPython : Python where
  repr _ := ""
  reprFloat _ := ""
  dumps _ := ""
  loads _ := none
  lower text := String.ofList (text.toList.map Char.toLower)

theorem toLower_caseless {c : Char} (caseless : c = '_' ∨ c.isDigit = true) : c.toLower = c := by
  rcases caseless with rfl | digit
  · rfl
  · have bounds := Numeral.bounds digit
    apply dif_neg
    rintro ⟨low, -⟩
    have letter : 65 ≤ c.toNat := low
    omega

theorem asciiPython_lower_append (front back : String) (caseless : ∀ c ∈ back.toList, c = '_' ∨ c.isDigit = true) :
    asciiPython.lower (front ++ back) = asciiPython.lower front ++ back := by
  have kept : back.toList.map Char.toLower = back.toList := by
    rw [List.map_congr_left fun c member => toLower_caseless (caseless c member), List.map_id']
  show String.ofList ((front ++ back).toList.map Char.toLower) = String.ofList (front.toList.map Char.toLower) ++ back
  rw [String.toList_append, List.map_append, kept, String.ofList_append, String.ofList_toList]

theorem isAlphanum_of_isAlpha (c : Char) (alpha : c.isAlpha = true) : c.isAlphanum = true :=
  Bool.or_eq_true_iff.mpr (.inl alpha)

def ascii : Letters asciiPython where
  isalpha := Char.isAlpha
  isalnum := Char.isAlphanum
  alnum := isAlphanum_of_isAlpha
  letter := rfl
  lower_append := asciiPython_lower_append

example : claim ascii ["x_lat"] "X.lat" = some "X_lat_2" := by decide

example : claim ascii ["v_2nd", "v_2nd_2"] "2nd" = some "v_2nd_3" := by decide

end Ascii

end Statistical

section Wide

/-- The columns of `_wide_table`. -/
def wideColumns (plan : ColumnPlan) (records : List SubmissionRecord) : List Column :=
  plan.parent ++ (flattened (plan.parent.map (·.name)) (slots plan records)).map (·.2.2)

theorem flattened_fresh {taken : List String} {entries : List (String × ℕ × Column)} :
    ((flattened taken entries).map (·.2.2.name)).Nodup ∧ ∀ e ∈ flattened taken entries, e.2.2.name ∉ taken := by
  induction entries generalizing taken with
  | nil => exact ⟨List.nodup_nil, by simp [flattened]⟩
  | cons entry rest ih =>
    obtain ⟨rid, slot, column⟩ := entry
    obtain ⟨distinct, free⟩ := @ih (taken ++ [claim taken (rid ++ "_" ++ toString (slot + 1) ++ "_" ++ column.name)])
    rw [flattened]
    constructor
    · apply List.nodup_cons.mpr
      refine ⟨?_, distinct⟩
      intro listed
      obtain ⟨e, member, same⟩ := List.mem_map.mp listed
      exact free e member (same ▸ List.mem_append_right _ List.mem_cons_self)
    · rintro e (_ | ⟨_, later⟩)
      · exact claim_fresh taken _
      · intro inside
        exact free e later (List.mem_append_left _ inside)

theorem wideColumns_nodup {plan : ColumnPlan} (distinct : (plan.parent.map (·.name)).Nodup) (records : List SubmissionRecord) :
    ((wideColumns plan records).map (·.name)).Nodup := by
  obtain ⟨own, free⟩ := @flattened_fresh (plan.parent.map (·.name)) (slots plan records)
  unfold wideColumns
  rw [List.map_append, List.map_map]
  refine List.nodup_append.mpr ⟨distinct, own, ?_⟩
  intro name listed other wide same
  subst same
  obtain ⟨e, member, is⟩ := List.mem_map.mp wide
  apply free e member
  rwa [show e.2.2.name = name from is]

end Wide

/-- The names that `_Names.claim` tries. -/
def tried (wanted : String) : ℕ → String
  | 0 => wanted
  | n + 1 => serialName wanted n

theorem claim_search (taken : List String) (wanted : String) :
    Ends (tried wanted) (fun name => decide (name ∉ taken)) (claim taken wanted) := by
  have fresh := claim_fresh taken wanted
  refine ⟨taken.length + 2, ?_⟩
  have first : tried wanted 0 = wanted := rfl
  rw [firstFree, first]
  by_cases listed : wanted ∈ taken
  · have later : (List.range' (0 + 1) (taken.length + 1)).map (tried wanted) =
        (List.range (taken.length + 1)).map (serialName wanted) := by
      rw [List.range'_eq_map_range, List.map_map]
      apply List.map_congr_left
      intro n _
      rw [Function.comp_apply, Nat.zero_add, Nat.add_comm]
      rfl
    rw [if_neg fun free => absurd listed (of_decide_eq_true free), firstFree_eq_find?, later]
    unfold claim at fresh ⊢
    rw [if_pos listed] at fresh ⊢
    cases found : ((List.range (taken.length + 1)).map (serialName wanted)).find? (· ∉ taken) with
    | none =>
      rw [found] at fresh
      exact absurd listed fresh
    | some name => rfl
  · rw [if_pos (decide_eq_true listed)]
    unfold claim
    rw [if_neg listed]

section Tables

variable {py : Python}

end Tables

end DataCollectionLab.Export
