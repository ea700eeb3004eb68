import DataCollectionLab.Export.Shape
import DataCollectionLab.Export.Union

/-! What two data types write alike: when a value has one cell under both, and neither raises. -/

namespace DataCollectionLab.Export

open Form Lib

inductive Writing where
  | flag | whole | real
  | text (of : Json → Option String)

/-- The codes of a `select_multiple`. -/
def codes (py : Python) : Json → Option String
  | .arr (item :: rest) => some (multipleSeparator.intercalate ((item :: rest).map (str py)))
  | _ => none

def nonempty (text : String) : Option String := if text = "" then none else some text

def writing (py : Python) (dataType : String) : Writing :=
  if dataType = "boolean" then .flag
  else if dataType = "integer" then .whole
  else if dataType = "decimal" then .real
  else if dataType = "select_multiple" then .text (codes py)
  else if dataType = "geotrace" ∨ dataType = "geoshape" then .text fun value => if truthy value then some (py.dumps value) else none
  else .text fun value => nonempty (str py value)

def Agree (value : Json) : Writing → Writing → Prop
  | .flag, .flag => True
  | .whole, .whole => ∃ n, intOf value = .ok n
  | .real, .real => ∃ d, floatOf value = .ok d
  | .flag, .whole | .whole, .flag => intOf value = .ok (if truthy value then 1 else 0)
  | .text f, .text g => f value = g value
  | .real, .text f | .text f, .real => f value = none ∧ ∃ d, floatOf value = .ok d ∧ ∀ q, d ≠ .finite q
  | .flag, .real | .real, .flag | .whole, .real | .real, .whole => False
  | .flag, .text _ | .text _, .flag | .whole, .text _ | .text _, .whole => False

def PartConverts (value : Json) (part : String) : Prop :=
  ∀ fields found, value = .obj fields → fields.lookup part = some found → found ≠ .null →
    if part = "size" then ∃ n, intOf found = .ok n
    else part ∈ numericComponents → ∃ d, floatOf found = .ok d

def LabelsAgree (py : Python) (lookup : String → Option String) (type own : String) (value : Json) : Prop :=
  type = own ∨ ∃ item rest, value = .arr (item :: rest) ∧
    named py lookup value = labelSeparator.intercalate ((item :: rest).map (named py lookup))

def Alike (py : Python) (record : SubmissionRecord) (key : ColumnKey) (type own : String) (value : Json) : Prop :=
  value = .null ∨
    match key.2.2 with
    | (_, .label) => LabelsAgree py (record.labels key.2.1) type own value
    | (some part, _) => PartConverts value part
    | (none, _) => Agree value (writing py type) (writing py own)

def Writing.cell (value : Json) : Writing → Except Failure Cell
  | .flag => .ok (.int (if truthy value then 1 else 0))
  | .whole => do return .int (← intOf value)
  | .real => do return finite (← floatOf value)
  | .text f => .ok (textOr (f value))

theorem textOr_inj {a b : Option String} : textOr a = textOr b ↔ a = b := by
  cases a <;> cases b <;> simp [textOr]

theorem finite_eq_textOr {d : Binary64} {text : Option String} :
    finite d = textOr text ↔ text = none ∧ ∀ q, d ≠ .finite q := by
  cases d <;> cases text <;> simp [finite, textOr]

def Writing.Makes (value : Json) (cell : Cell) : Writing → Prop
  | .flag => cell = .int (if truthy value then 1 else 0)
  | .whole => ∃ n, intOf value = .ok n ∧ cell = .int n
  | .real => ∃ d, floatOf value = .ok d ∧ cell = finite d
  | .text f => cell = textOr (f value)

theorem Writing.cell_eq_ok_iff {value : Json} {cell : Cell} (w : Writing) : w.cell value = .ok cell ↔ w.Makes value cell := by
  cases w with
  | flag =>
    rw [Writing.cell, Writing.Makes, Except.ok.injEq]
    exact eq_comm
  | text f =>
    rw [Writing.cell, Writing.Makes, Except.ok.injEq]
    exact eq_comm
  | whole =>
    rw [Writing.cell, Writing.Makes, bind_ok_iff]
    exact exists_congr fun n => and_congr_right fun _ => ⟨fun same => (Except.ok.inj same).symm, fun same => same ▸ rfl⟩
  | real =>
    rw [Writing.cell, Writing.Makes, bind_ok_iff]
    exact exists_congr fun n => and_congr_right fun _ => ⟨fun same => (Except.ok.inj same).symm, fun same => same ▸ rfl⟩

theorem agree_iff (value : Json) (a b : Writing) :
    Agree value a b ↔ ∃ cell, a.cell value = .ok cell ∧ b.cell value = .ok cell := by
  have finite_ne (d : Binary64) (n : ℤ) : finite d ≠ .int n := by cases d <;> simp [finite]
  have ne_finite (d : Binary64) (n : ℤ) : .int n ≠ finite d := (finite_ne d n).symm
  have textOr_ne (text : Option String) (n : ℤ) : textOr text ≠ .int n := by cases text <;> simp [textOr]
  have ne_textOr (text : Option String) (n : ℤ) : .int n ≠ textOr text := (textOr_ne text n).symm
  have textOr_finite (d : Binary64) (text : Option String) : textOr text = finite d ↔ text = none ∧ ∀ q, d ≠ .finite q :=
    eq_comm.trans finite_eq_textOr
  simp only [Writing.cell_eq_ok_iff]
  cases a <;> cases b <;>
    simp [Agree, Writing.Makes, finite_ne, ne_finite, textOr_ne, ne_textOr, textOr_finite, finite_eq_textOr, textOr_inj]
  all_goals
    constructor
    · rintro ⟨none, d, read, infinite⟩
      exact ⟨d, read, none, infinite⟩
    · rintro ⟨d, read, none, infinite⟩
      exact ⟨none, d, read, infinite⟩

section Alike

variable {py : Python} {record : SubmissionRecord} {value : Json} {type own : String}

theorem textCell_eq (text : String) : textCell text = textOr (nonempty text) := by
  unfold textCell nonempty
  split <;> rfl

theorem render_bare (answered : value ≠ .null) (bare : components type = none) :
    render py value type none = (writing py type).cell value := by
  have rendered : render py value type none =
      if type = "boolean" then .ok (.int (if truthy value then 1 else 0))
      else if type = "integer" then do return .int (← intOf value)
      else if type = "decimal" then do return finite (← floatOf value)
      else if type = "select_multiple" then .ok (textOr (codes py value))
      else if type = "geotrace" ∨ type = "geoshape" then .ok (if truthy value then .text (py.dumps value) else .empty)
      else .ok (textCell (str py value)) := by
    unfold render
    rw [bare]
    cases value with
    | null => exact absurd rfl answered
    | arr items => cases items <;> rfl
    | _ => rfl
  rw [rendered, writing]
  split
  · rfl
  · split
    · rfl
    · split
      · rfl
      · split
        · rfl
        · split
          · rw [Writing.cell]
            split <;> rfl
          · rw [textCell_eq]
            rfl

theorem exists_component_iff (part : String) :
    (∃ cell, component py value part = .ok cell) ↔ PartConverts value part := by
  cases value with
  | obj fields =>
    cases found : fields.lookup part with
    | none =>
      refine ⟨fun _ fields' read same there _ => ?_, fun _ => ⟨.empty, by rw [component, found]⟩⟩
      obtain rfl := Json.obj.inj same
      rw [found] at there
      cases there
    | some read =>
      by_cases null : read = .null
      · subst null
        refine ⟨fun _ fields' read same there answered => ?_, fun _ => ⟨.empty, by rw [component, found]⟩⟩
        obtain rfl := Json.obj.inj same
        exact absurd (Option.some.inj (found.symm.trans there)).symm answered
      · have written : component py (.obj fields) part =
            if part = "size" then do return .int (← intOf read)
            else if part ∈ numericComponents then do return finite (← floatOf read)
            else .ok (textCell (str py read)) := by
          rw [component, found]
          cases read <;> first | exact absurd rfl null | rfl
        have converts : PartConverts (.obj fields) part ↔
            if part = "size" then ∃ n, intOf read = .ok n else part ∈ numericComponents → ∃ d, floatOf read = .ok d := by
          constructor
          · intro converts
            exact converts fields read rfl found null
          · intro converts fields' read' same there _
            obtain rfl := Json.obj.inj same
            obtain rfl := Option.some.inj (found.symm.trans there)
            exact converts
        rw [written, converts]
        split
        · simp only [bind_ok_iff]
          constructor
          · rintro ⟨cell, n, ok, -⟩
            exact ⟨n, ok⟩
          · rintro ⟨n, ok⟩
            exact ⟨_, n, ok, rfl⟩
        · split
          · rename_i numeric
            simp only [bind_ok_iff]
            constructor
            · rintro ⟨cell, d, ok, -⟩ _
              exact ⟨d, ok⟩
            · intro ok
              obtain ⟨d, ok⟩ := ok numeric
              exact ⟨_, d, ok, rfl⟩
          · rename_i text
            exact ⟨fun _ numeric => absurd numeric text, fun _ => ⟨_, rfl⟩⟩
  | _ =>
    constructor
    · intro _ fields read same
      cases same
    · intro _
      exact ⟨.empty, rfl⟩

theorem labelCell_crossed {lookup : String → Option String} (answered : value ≠ .null) :
    labelCell py value "select_one" lookup = labelCell py value "select_multiple" lookup ↔
      ∃ item rest, value = .arr (item :: rest) ∧
        named py lookup value = labelSeparator.intercalate ((item :: rest).map (named py lookup)) := by
  have one : labelCell py value "select_one" lookup = .text (named py lookup value) := by
    cases value <;> first | exact absurd rfl answered | rfl
  rw [one]
  cases value with
  | null => exact absurd rfl answered
  | arr items =>
    cases items with
    | nil =>
      constructor
      · intro same
        cases same
      · rintro ⟨item, rest, same, -⟩
        cases same
    | cons item rest =>
      constructor
      · intro same
        exact ⟨item, rest, rfl, Cell.text.inj same⟩
      · rintro ⟨item', rest', same, texts⟩
        obtain ⟨rfl, rfl⟩ := List.cons.inj (Json.arr.inj same)
        exact congrArg Cell.text texts
  | _ =>
    constructor
    · intro same
      cases same
    · rintro ⟨item, rest, same, -⟩
      cases same

theorem labelCell_eq_iff {lookup : String → Option String} (answered : value ≠ .null) (choice : type ∈ choiceTypes)
    (own_choice : own ∈ choiceTypes) :
    labelCell py value type lookup = labelCell py value own lookup ↔ LabelsAgree py lookup type own value := by
  have crossed := @labelCell_crossed py value lookup answered
  simp only [choiceTypes, List.mem_cons, List.not_mem_nil, or_false] at choice own_choice
  unfold LabelsAgree
  rcases choice with rfl | rfl <;> rcases own_choice with rfl | rfl
  · simp
  · rw [crossed]
    simp
  · rw [eq_comm, crossed]
    simp
  · simp

theorem columnParts_cases {part : Option String} {source : ColumnSource} (member : (part, source) ∈ columnParts type) :
    (source = .label ∧ type ∈ choiceTypes) ∨ (source = .field ∧ part.isSome) ∨
      (source = .field ∧ part = none ∧ components type = none) := by
  unfold columnParts at member
  split at member
  · cases member
  · cases found : components type with
    | some parts =>
      rw [found] at member
      obtain ⟨name, -, same⟩ := List.mem_map.mp member
      obtain ⟨rfl, rfl⟩ := Prod.mk.inj same
      exact .inr (.inl ⟨rfl, rfl⟩)
    | none =>
      rw [found] at member
      dsimp only at member
      split at member
      · rename_i choice
        rcases List.mem_cons.mp member with same | later
        · obtain ⟨rfl, rfl⟩ := Prod.mk.inj same
          exact .inr (.inr ⟨rfl, rfl, rfl⟩)
        · obtain ⟨rfl, rfl⟩ := Prod.mk.inj (List.mem_singleton.mp later)
          exact .inl ⟨rfl, choice⟩
      · obtain ⟨rfl, rfl⟩ := Prod.mk.inj (List.mem_singleton.mp member)
        exact .inr (.inr ⟨rfl, rfl, rfl⟩)

theorem alike_iff {key : ColumnKey} (part : key.2.2 ∈ columnParts type) (own_part : key.2.2 ∈ columnParts own) :
    Alike py record key type own value ↔
      ∃ cell, written py record key.2.2.2 key.2.1 type key.2.2.1 value = .ok cell ∧
        written py record key.2.2.2 key.2.1 own key.2.2.1 value = .ok cell := by
  obtain ⟨place, fid, component_, source⟩ := key
  by_cases null : value = .null
  · subst null
    refine ⟨fun _ => ⟨.empty, ?_, ?_⟩, fun _ => .inl rfl⟩ <;>
      · unfold written
        split <;> first | rfl | (cases component_ <;> rfl)
  rw [Alike, or_iff_right null]
  dsimp only at part own_part ⊢
  rcases columnParts_cases part with ⟨rfl, choice⟩ | ⟨rfl, some⟩ | ⟨rfl, rfl, bare⟩
  · rcases columnParts_cases own_part with ⟨-, own_choice⟩ | ⟨impossible, -⟩ | ⟨impossible, -⟩
    · simp only [written, if_pos, ← labelCell_eq_iff null choice own_choice, Except.ok.injEq, exists_eq_left']
      exact eq_comm
    · cases impossible
    · cases impossible
  · obtain ⟨name, rfl⟩ := Option.isSome_iff_exists.mp some
    have rendered (t : String) : render py value t (.some name) = component py value name := by
      cases value <;> first | exact absurd rfl null | rfl
    simp only [written, reduceCtorEq, if_false, rendered, and_self]
    exact (exists_component_iff name).symm
  · rcases columnParts_cases own_part with ⟨impossible, -⟩ | ⟨-, impossible⟩ | ⟨-, -, own_bare⟩
    · cases impossible
    · cases impossible
    · simp only [written, reduceCtorEq, if_false, render_bare null bare, render_bare null own_bare]
      exact agree_iff value _ _

end Alike

end DataCollectionLab.Export
