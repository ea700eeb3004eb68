import DataCollectionLab.Form.Numerals
import DataCollectionLab.Lib.Brackets
import DataCollectionLab.Lib.Texts

/-!
The survey sheet. `read_survey` keeps a stack of the containers that are open and puts each row it reads into the
innermost one; an end row closes that one, whatever it says it ends.
-/

namespace DataCollectionLab.Xlsform

open Lib Form

structure CellRef where
  sheet : String
  row : ℕ
  column : String

structure Cell where
  ref : CellRef
  value : String

structure Row where
  sheet : String
  number : ℕ
  cells : List (String × Cell)

def Row.get (row : Row) (column : String) : Option String := (row.cells.lookup column).map Cell.value

inductive Severity where
  | error
  | warning
  | info

structure Diagnostic where
  severity : Severity
  code : String
  message : String
  ref : CellRef
  cellValue : Option String := none
  nodeId : Option String := none
  remedy : Option String := none

inductive Kind where
  | group
  | repeat
  deriving DecidableEq

def Kind.text : Kind → String
  | group => "group"
  | «repeat» => "repeat"

inductive Node (κ ν : Type) where
  | question (node : ν)
  | container (kind : Kind) (id : String) (members : Option κ) (children : List (Node κ ν))

structure Opened (κ : Type) where
  kind : Kind
  id : String
  members : Option κ
  ref : CellRef

def Opened.node {κ ν : Type} (o : Opened κ) (children : List (Node κ ν)) : Node κ ν :=
  .container o.kind o.id o.members children

/-- `str.lower`, and what the importer makes of a row: the id of a name, the members of a named container beside its
kind, id and children, and the node of a question, with the state `σ` that they leave. -/
structure Importer (σ κ ν : Type) where
  lower : String → String
  identifier : String → CellRef → Row → σ → Option String × σ
  members : Row → String → Kind → σ → κ × σ
  question : Row → Cell → String → σ → Option ν × σ

/-- `re.sub(r"\s+", " ", text).strip()`. -/
def rawType (cell : Cell) : String :=
  String.ofList (Reference.strip (squeeze Reference.isSpace ' ' cell.value.toList))

def beginTypes : List String := ["begin group", "begin_group", "begin repeat", "begin_repeat"]

def endTypes : List String := ["end group", "end_group", "end repeat", "end_repeat"]

/-- `"repeat" if "repeat" in lowered else "group"`. -/
def kindOf (lowered : String) : Kind := if "repeat".toList <:+: lowered.toList then .repeat else .group

/-- What `read_survey` has read: the root's children, the open containers with the children each has, innermost first,
and what it reports. A container goes to its parent when it closes, where the source appends it at its begin row; nothing
comes between. -/
structure Reading (σ κ ν : Type) where
  root : List (Node κ ν)
  stack : List (Opened κ × List (Node κ ν))
  diagnostics : List Diagnostic
  rest : σ

section Read

variable {σ κ ν : Type}

/-- `stack[-1].append(node)`. -/
def Reading.append (r : Reading σ κ ν) (node : Node κ ν) : Reading σ κ ν :=
  match r.stack with
  | [] => { r with root := r.root ++ [node] }
  | (o, children) :: outer => { r with stack := (o, children ++ [node]) :: outer }

def Reading.report (r : Reading σ κ ν) (found : List Diagnostic) : Reading σ κ ν :=
  { r with diagnostics := r.diagnostics ++ found }

def rowWithoutType (cell : Cell) : Diagnostic where
  severity := .warning
  code := "row_without_type"
  message := "This row has content but no `type`, so it is not a question and was skipped."
  ref := cell.ref
  cellValue := some cell.value

def containerWithoutName (cell : Cell) (lowered name : String) : Diagnostic where
  severity := .warning
  code := "container_without_name"
  message := "This `" ++ lowered ++ "` has no `name`, so it was called `" ++ name ++ "`."
  ref := cell.ref
  cellValue := some lowered

def ignoredOnEndRow (lowered column : String) (cell : Cell) : Diagnostic where
  severity := .info
  code := "ignored_on_end_row"
  message := "`" ++ column ++ "` on an `" ++ lowered ++ "` row has no meaning and was ignored."
  ref := cell.ref
  cellValue := some cell.value

def ignoredCells (row : Row) (lowered : String) : List Diagnostic :=
  (row.cells.filter fun entry => entry.1 ≠ "type").map fun entry => ignoredOnEndRow lowered entry.1 entry.2

def neverOpened (raw : String) (cell : Cell) : Diagnostic where
  severity := .error
  code := "unbalanced_group"
  message := "`" ++ raw ++ "` closes a group that was never opened."
  ref := cell.ref
  cellValue := some raw
  remedy := some "Remove this row, or add the matching `begin` row above it."

def neverClosed (name : String) (ref : CellRef) : Diagnostic where
  severity := .error
  code := "unbalanced_group"
  message := "The group `" ++ name ++ "` is never closed; every `begin` needs an `end`."
  ref := ref
  nodeId := some name
  remedy := some "Add an `end group` row after the last question in it."

variable (imp : Importer σ κ ν)

/-- `if not name`: no cell, or an empty one. -/
def Row.name (row : Row) : Option String := (row.get "name").filter (· ≠ "")

def container (row : Row) (typeCell : Cell) (lowered : String) (s : σ) : Opened κ × List Diagnostic × σ :=
  let kind := kindOf lowered
  let called := kind.text ++ "_" ++ toString row.number
  let found := if row.name = none then [containerWithoutName typeCell lowered called] else []
  match imp.identifier (row.name.getD called) typeCell.ref row s with
  | (none, s) => (⟨kind, called, none, typeCell.ref⟩, found, s)
  | (some id, s) => (⟨kind, id, some (imp.members row id kind s).1, typeCell.ref⟩, found, (imp.members row id kind s).2)

def Reading.close (r : Reading σ κ ν) (raw : String) (typeCell : Cell) : Reading σ κ ν :=
  match r.stack with
  | [] => r.report [neverOpened raw typeCell]
  | (o, children) :: outer => { r with stack := outer }.append (o.node children)

/-- One row of `read_survey`. -/
def step (r : Reading σ κ ν) (row : Row) : Reading σ κ ν :=
  if row.cells = [] then r
  else
    match row.cells.lookup "type" with
    | none => r.report (row.cells.map fun entry => rowWithoutType entry.2)
    | some typeCell =>
      let raw := rawType typeCell
      let lowered := imp.lower raw
      if lowered ∈ beginTypes then
        let (o, found, s) := container imp row typeCell lowered r.rest
        { r with stack := (o, []) :: r.stack, diagnostics := r.diagnostics ++ found, rest := s }
      else if lowered ∈ endTypes then
        (r.report (ignoredCells row lowered)).close raw typeCell
      else
        match imp.question row typeCell raw r.rest with
        | (none, s) => { r with rest := s }
        | (some node, s) => { r with rest := s }.append (.question node)

def readRows (r : Reading σ κ ν) (rows : List Row) : Reading σ κ ν := rows.foldl (step imp) r

def Reading.tree (r : Reading σ κ ν) : List (Node κ ν) :=
  r.root ++ r.stack.foldl (fun nodes entry => [entry.1.node (entry.2 ++ nodes)]) []

def readSurvey (rows : List Row) (s : σ) : List (Node κ ν) × List Diagnostic × σ :=
  let r := readRows imp ⟨[], [], [], s⟩ rows
  (r.tree, r.diagnostics ++ r.stack.reverse.map fun entry => neverClosed entry.1.id entry.1.ref, r.rest)

end Read

section Meaning

variable {σ κ ν : Type} (imp : Importer σ κ ν)

def mark (row : Row) : Mark Kind :=
  match row.cells.lookup "type" with
  | none => .other
  | some typeCell =>
    let lowered := imp.lower (rawType typeCell)
    if lowered ∈ beginTypes then .opens (kindOf lowered)
    else if lowered ∈ endTypes then .closes (kindOf lowered)
    else .other

/-- The rows make a tree: a question stands where its row does, and a container holds what its rows make, from its
begin row to the end row that is paired with it. -/
inductive Nested : σ → List Row → List (Node κ ν) → σ → Prop
  | done {s : σ} : Nested s [] [] s
  | skipped {s s' : σ} {row : Row} {rows : List Row} {nodes : List (Node κ ν)} : row.cells.lookup "type" = none →
      Nested s rows nodes s' → Nested s (row :: rows) nodes s'
  | question {s s₁ s' : σ} {row : Row} {typeCell : Cell} {made : Option ν} {rows : List Row} {nodes : List (Node κ ν)} :
      row.cells.lookup "type" = some typeCell → mark imp row = .other →
      imp.question row typeCell (rawType typeCell) s = (made, s₁) → Nested s₁ rows nodes s' →
      Nested s (row :: rows) (made.toList.map .question ++ nodes) s'
  | container {s s₁ s₂ s' : σ} {row last : Row} {typeCell : Cell} {k k' : Kind} {o : Opened κ} {found : List Diagnostic}
      {inner rows : List Row} {children nodes : List (Node κ ν)} : row.cells.lookup "type" = some typeCell →
      mark imp row = .opens k → container imp row typeCell (imp.lower (rawType typeCell)) s = (o, found, s₁) →
      Nested s₁ inner children s₂ → mark imp last = .closes k' → Nested s₂ rows nodes s' →
      Nested s (row :: (inner ++ last :: rows)) (o.node children :: nodes) s'

def imported : σ → List Row → List ν
  | _, [] => []
  | s, row :: rows =>
    match row.cells.lookup "type" with
    | none => imported s rows
    | some typeCell =>
      match mark imp row with
      | .opens _ => imported (container imp row typeCell (imp.lower (rawType typeCell)) s).2.2 rows
      | .closes _ => imported s rows
      | .other =>
        (imp.question row typeCell (rawType typeCell) s).1.toList ++
          imported (imp.question row typeCell (rawType typeCell) s).2 rows

mutual

def Node.questions : Node κ ν → List ν
  | .question node => [node]
  | .container _ _ _ children => questionsOf children

def questionsOf : List (Node κ ν) → List ν
  | [] => []
  | node :: nodes => node.questions ++ questionsOf nodes

end

def structural (found : List Diagnostic) : List Diagnostic :=
  found.filter fun d => d.code = "unbalanced_group"

def Exact (rows : List Row) (s : σ) : Prop :=
  (Matched (rows.map (mark imp)) →
    structural (readSurvey imp rows s).2.1 = [] ∧
      Nested imp s rows (readSurvey imp rows s).1 (readSurvey imp rows s).2.2) ∧
    (¬ Matched (rows.map (mark imp)) → ∃ d ∈ structural (readSurvey imp rows s).2.1, d.severity = .error) ∧
      questionsOf (readSurvey imp rows s).1 = imported imp s rows

end Meaning

section Step

variable {σ κ ν : Type} {imp : Importer σ κ ν} {row : Row}

theorem mark_typed (is : mark imp row ≠ .other) : ∃ typeCell, row.cells.lookup "type" = some typeCell := by
  cases typed : row.cells.lookup "type" with
  | none =>
    refine absurd ?_ is
    rw [mark, typed]
  | some typeCell => exact ⟨typeCell, rfl⟩

theorem cells_typed {typeCell : Cell} (typed : row.cells.lookup "type" = some typeCell) : row.cells ≠ [] := by
  intro none
  rw [none] at typed
  cases typed

theorem structural_container {typeCell : Cell} {lowered : String} {s s' : σ} {o : Opened κ} {found : List Diagnostic}
    (is : container imp row typeCell lowered s = (o, found, s')) : structural found = [] := by
  have none : structural (if row.name = none then
      [containerWithoutName typeCell lowered ((kindOf lowered).text ++ "_" ++ toString row.number)] else []) = [] := by
    split <;> rfl
  unfold container at is
  dsimp only at is
  split at is
  · obtain ⟨-, rfl, -⟩ := is
    exact none
  · obtain ⟨-, rfl, -⟩ := is
    exact none

theorem structural_ignored (row : Row) (lowered : String) : structural (ignoredCells row lowered) = [] := by
  apply List.filter_eq_nil_iff.mpr
  intro d member
  obtain ⟨entry, -, rfl⟩ := List.mem_map.mp member
  show ¬ decide ("ignored_on_end_row" = "unbalanced_group") = true
  decide

theorem step_opens {k : Kind} (r : Reading σ κ ν) (is : mark imp row = .opens k) :
    ∃ typeCell o found s, row.cells.lookup "type" = some typeCell ∧
      container imp row typeCell (imp.lower (rawType typeCell)) r.rest = (o, found, s) ∧
      step imp r row = { r with stack := (o, []) :: r.stack, diagnostics := r.diagnostics ++ found, rest := s } := by
  have other : mark imp row ≠ .other := by
    rw [is]
    rintro ⟨⟩
  obtain ⟨typeCell, typed⟩ := mark_typed other
  have begins : imp.lower (rawType typeCell) ∈ beginTypes := by
    by_contra off
    rw [mark, typed] at is
    dsimp only at is
    rw [if_neg off] at is
    split at is <;> cases is
  let made := container imp row typeCell (imp.lower (rawType typeCell)) r.rest
  refine ⟨typeCell, made.1, made.2.1, made.2.2, typed, rfl, ?_⟩
  rw [step, if_neg (cells_typed typed), typed]
  dsimp only
  rw [if_pos begins]

theorem step_closes {k : Kind} (r : Reading σ κ ν) (is : mark imp row = .closes k) :
    ∃ typeCell found, structural found = [] ∧
      step imp r row = (r.report found).close (rawType typeCell) typeCell := by
  have other : mark imp row ≠ .other := by
    rw [is]
    rintro ⟨⟩
  obtain ⟨typeCell, typed⟩ := mark_typed other
  rw [mark, typed] at is
  dsimp only at is
  split at is
  · cases is
  · rename_i unopened
    split at is
    · rename_i ends
      refine ⟨typeCell, ignoredCells row (imp.lower (rawType typeCell)), structural_ignored _ _, ?_⟩
      rw [step, if_neg (cells_typed typed), typed]
      dsimp only
      rw [if_neg unopened, if_pos ends]
    · cases is

theorem step_untyped (r : Reading σ κ ν) (none : row.cells.lookup "type" = none) :
    ∃ found, structural found = [] ∧ step imp r row = r.report found := by
  by_cases empty : row.cells = []
  · refine ⟨[], rfl, ?_⟩
    rw [step, if_pos empty, Reading.report, List.append_nil]
  · refine ⟨row.cells.map fun entry => rowWithoutType entry.2, ?_, ?_⟩
    · apply List.filter_eq_nil_iff.mpr
      intro d member
      obtain ⟨entry, -, rfl⟩ := List.mem_map.mp member
      show ¬ decide ("row_without_type" = "unbalanced_group") = true
      decide
    · rw [step, if_neg empty, none]

def Reading.asked (r : Reading σ κ ν) (made : Option ν × σ) : Reading σ κ ν :=
  match made with
  | (none, s) => { r with rest := s }
  | (some node, s) => { r with rest := s }.append (.question node)

theorem step_question {typeCell : Cell} (r : Reading σ κ ν) (typed : row.cells.lookup "type" = some typeCell)
    (is : mark imp row = .other) : step imp r row = r.asked (imp.question row typeCell (rawType typeCell) r.rest) := by
  rw [mark, typed] at is
  dsimp only at is
  split at is
  · cases is
  · rename_i unopened
    split at is
    · cases is
    · rename_i unclosed
      rw [step, if_neg (cells_typed typed), typed]
      dsimp only
      rw [if_neg unopened, if_neg unclosed]
      rfl

end Step

section Run

variable {σ κ ν : Type} {imp : Importer σ κ ν}

theorem structural_append (a b : List Diagnostic) : structural (a ++ b) = structural a ++ structural b := List.filter_append ..

@[simp] theorem append_diagnostics (r : Reading σ κ ν) (node : Node κ ν) : (r.append node).diagnostics = r.diagnostics := by
  unfold Reading.append
  split <;> rfl

@[simp] theorem append_stack (r : Reading σ κ ν) (node : Node κ ν) : (r.append node).stack.length = r.stack.length := by
  unfold Reading.append
  split
  · rfl
  · rename_i is
    rw [is]
    rfl

@[simp] theorem append_rest (r : Reading σ κ ν) (node : Node κ ν) : (r.append node).rest = r.rest := by
  unfold Reading.append
  split <;> rfl

def Reading.reported (r : Reading σ κ ν) : List Diagnostic :=
  r.diagnostics ++ r.stack.reverse.map fun entry => neverClosed entry.1.id entry.1.ref

theorem structural_unclosed (stack : List (Opened κ × List (Node κ ν))) :
    structural (stack.reverse.map fun entry => neverClosed entry.1.id entry.1.ref) =
      stack.reverse.map fun entry => neverClosed entry.1.id entry.1.ref := by
  apply List.filter_eq_self.mpr
  intro d member
  obtain ⟨entry, -, rfl⟩ := List.mem_map.mp member
  rfl

theorem step_other {row : Row} (r : Reading σ κ ν) (is : mark imp row = .other) :
    (step imp r row).stack.length = r.stack.length ∧ structural (step imp r row).diagnostics = structural r.diagnostics := by
  cases typed : row.cells.lookup "type" with
  | none =>
    obtain ⟨found, none, stepped⟩ := @step_untyped _ _ _ imp row r typed
    rw [stepped]
    refine ⟨rfl, ?_⟩
    show structural (r.diagnostics ++ found) = _
    rw [structural_append, none, List.append_nil]
  | some typeCell =>
    rw [step_question r typed is]
    obtain ⟨made, s⟩ := imp.question row typeCell (rawType typeCell) r.rest
    cases made with
    | none => exact ⟨rfl, rfl⟩
    | some node =>
      refine ⟨append_stack _ _, ?_⟩
      exact congrArg structural (append_diagnostics _ _)

theorem reported_iff (rows : List Row) (r : Reading σ κ ν) :
    structural (readRows imp r rows).reported = [] ↔
      structural r.diagnostics = [] ∧ balance r.stack.length (rows.map (mark imp)) = true := by
  induction rows generalizing r with
  | nil =>
    show structural r.reported = [] ↔ _
    rw [Reading.reported, structural_append, structural_unclosed, List.append_eq_nil_iff, List.map_eq_nil_iff, List.reverse_eq_nil_iff]
    cases r.stack with
    | nil => simp [balance]
    | cons entry outer => simp [balance]
  | cons row rows ih =>
    show structural (readRows imp (step imp r row) rows).reported = [] ↔ _
    rw [ih, List.map_cons]
    cases is : mark imp row with
    | other =>
      obtain ⟨same, found⟩ := step_other r is
      rw [same, found, balance_other]
    | opens k =>
      obtain ⟨typeCell, o, found, s, -, made, stepped⟩ := step_opens r is
      rw [stepped, balance_opens]
      dsimp only
      rw [structural_append, structural_container made, List.append_nil, List.length_cons]
    | closes k =>
      obtain ⟨typeCell, found, none, stepped⟩ := step_closes r is
      rw [stepped]
      unfold Reading.close
      cases opened : r.stack with
      | nil =>
        have open' : (r.report found).stack = [] := opened
        rw [open']
        refine iff_of_false ?_ fun both => Bool.noConfusion both.2
        rintro ⟨empty, -⟩
        change structural ((r.diagnostics ++ found) ++ [neverOpened (rawType typeCell) typeCell]) = [] at empty
        rw [structural_append, List.append_eq_nil_iff] at empty
        cases empty.2
      | cons entry outer =>
        have open' : (r.report found).stack = entry :: outer := opened
        rw [open']
        dsimp only
        rw [append_diagnostics, append_stack]
        show structural (r.diagnostics ++ found) = [] ∧ balance outer.length (rows.map (mark imp)) = true ↔
          structural r.diagnostics = [] ∧ balance (outer.length + 1) (.closes k :: rows.map (mark imp)) = true
        rw [structural_append, none, List.append_nil]
        rfl

def Reading.extend (r : Reading σ κ ν) (nodes : List (Node κ ν)) (found : List Diagnostic) (s : σ) : Reading σ κ ν :=
  match r.stack with
  | [] => ⟨r.root ++ nodes, [], found, s⟩
  | (o, children) :: outer => ⟨r.root, (o, children ++ nodes) :: outer, found, s⟩

theorem extend_nil (r : Reading σ κ ν) (found : List Diagnostic) (s : σ) :
    r.extend [] found s = { r with diagnostics := found, rest := s } := by
  unfold Reading.extend
  split <;> rename_i is <;> simp [is]

theorem extend_extend (r : Reading σ κ ν) (a b : List (Node κ ν)) (found found' : List Diagnostic) (s s' : σ) :
    (r.extend a found s).extend b found' s' = r.extend (a ++ b) found' s' := by
  unfold Reading.extend
  cases r.stack with
  | nil => simp
  | cons entry outer => simp

theorem extend_rest (r : Reading σ κ ν) (nodes : List (Node κ ν)) (found : List Diagnostic) (s : σ) :
    (r.extend nodes found s).rest = s := by
  unfold Reading.extend
  split <;> rfl

theorem append_extend (r : Reading σ κ ν) (node : Node κ ν) : r.append node = r.extend [node] r.diagnostics r.rest := by
  obtain ⟨root, stack, diagnostics, rest⟩ := r
  unfold Reading.append Reading.extend
  cases stack <;> rfl

theorem asked_extend (r : Reading σ κ ν) (made : Option ν × σ) :
    r.asked made = r.extend (made.1.toList.map .question) r.diagnostics made.2 := by
  obtain ⟨made, s⟩ := made
  cases made with
  | none => exact (extend_nil r r.diagnostics s).symm
  | some node => exact append_extend _ _

theorem nested_level {marks : List (Mark Kind)} (level : Level marks) {rows : List Row} (is : rows.map (mark imp) = marks)
    (r : Reading σ κ ν) :
    ∃ nodes found s, Nested imp r.rest rows nodes s ∧ readRows imp r rows = r.extend nodes found s := by
  induction level generalizing rows r with
  | nil =>
    obtain rfl := List.map_eq_nil_iff.mp is
    exact ⟨[], r.diagnostics, r.rest, .done, (extend_nil r _ _).symm⟩
  | other _ ih =>
    obtain ⟨row, rows, rfl, other, is⟩ := List.map_eq_cons_iff.mp is
    show ∃ nodes found s, _ ∧ readRows imp (step imp r row) rows = _
    cases typed : row.cells.lookup "type" with
    | none =>
      obtain ⟨found, -, stepped⟩ := @step_untyped _ _ _ imp row r typed
      obtain ⟨nodes, found', s, nested, ran⟩ := ih is (r.report found)
      refine ⟨nodes, found', s, .skipped typed nested, ?_⟩
      rw [stepped, ran]
      rfl
    | some typeCell =>
      have stepped := step_question r typed other
      rw [asked_extend] at stepped
      obtain ⟨nodes, found, s, nested, ran⟩ := ih is (step imp r row)
      rw [stepped] at nested ran
      rw [extend_rest] at nested
      refine ⟨_, found, s, .question typed other rfl nested, ?_⟩
      rw [stepped, ran, extend_extend]
  | nest _ _ ihInner ih =>
    obtain ⟨row, rows, rfl, opens, is⟩ := List.map_eq_cons_iff.mp is
    obtain ⟨inner, later, rfl, isInner, is⟩ := List.map_eq_append_iff.mp is
    obtain ⟨last, rows, rfl, closes, is⟩ := List.map_eq_cons_iff.mp is
    obtain ⟨typeCell, o, found, s₁, typed, made, stepped⟩ := step_opens r opens
    obtain ⟨children, found₂, s₂, nestedInner, ranInner⟩ := ihInner isInner (step imp r row)
    have ran : readRows imp r (row :: (inner ++ last :: rows)) =
        readRows imp (step imp (readRows imp (step imp r row) inner) last) rows := by
      unfold readRows
      rw [List.foldl_cons, List.foldl_append, List.foldl_cons]
    obtain ⟨typeCell', found₃, -, closed⟩ := step_closes (readRows imp (step imp r row) inner) closes
    have back : step imp (readRows imp (step imp r row) inner) last =
        r.extend [o.node children] (found₂ ++ found₃) s₂ := by
      rw [closed, ranInner, stepped]
      show Reading.append ⟨r.root, r.stack, found₂ ++ found₃, s₂⟩ (o.node ([] ++ children)) = _
      rw [append_extend]
      rfl
    obtain ⟨nodes, found₄, s₄, nested, ranRest⟩ := ih is (step imp (readRows imp (step imp r row) inner) last)
    rw [stepped] at nestedInner
    rw [back] at nested ranRest
    rw [extend_rest] at nested
    refine ⟨o.node children :: nodes, found₄, s₄, .container typed opens made nestedInner closes nested, ?_⟩
    rw [ran, back, ranRest, extend_extend]
    rfl

theorem questionsOf_append (a b : List (Node κ ν)) : questionsOf (a ++ b) = questionsOf a ++ questionsOf b := by
  induction a with
  | nil => rfl
  | cons node a ih => rw [List.cons_append, questionsOf, questionsOf, ih, List.append_assoc]

theorem questionsOf_single (node : Node κ ν) : questionsOf [node] = node.questions := by
  rw [questionsOf, questionsOf, List.append_nil]

theorem questionsOf_tree (r : Reading σ κ ν) :
    questionsOf r.tree = questionsOf r.root ++ r.stack.reverse.flatMap fun entry => questionsOf entry.2 := by
  have plug : ∀ (stack : List (Opened κ × List (Node κ ν))) (nodes : List (Node κ ν)),
      questionsOf (stack.foldl (fun nodes entry => [entry.1.node (entry.2 ++ nodes)]) nodes) =
        stack.reverse.flatMap (fun entry => questionsOf entry.2) ++ questionsOf nodes := by
    intro stack
    induction stack with
    | nil => exact fun nodes => rfl
    | cons entry stack ih =>
      intro nodes
      rw [List.foldl_cons, ih, questionsOf_single, Opened.node, Node.questions, questionsOf_append, List.reverse_cons,
        List.flatMap_append, List.flatMap_singleton, List.append_assoc]
  rw [Reading.tree, questionsOf_append, plug]
  rw [questionsOf, List.append_nil]

theorem questionsOf_append_node (r : Reading σ κ ν) (node : Node κ ν) :
    questionsOf (r.append node).tree = questionsOf r.tree ++ node.questions := by
  rw [questionsOf_tree, questionsOf_tree, Reading.append]
  cases r.stack with
  | nil =>
    show questionsOf (r.root ++ [node]) ++ [] = _
    rw [questionsOf_append, questionsOf_single]
    simp
  | cons entry outer =>
    obtain ⟨o, children⟩ := entry
    simp only [List.reverse_cons, List.flatMap_append, List.flatMap_singleton, questionsOf_append, questionsOf_single,
      List.append_assoc]

theorem questionsOf_close (r : Reading σ κ ν) (raw : String) (typeCell : Cell) :
    questionsOf (r.close raw typeCell).tree = questionsOf r.tree := by
  unfold Reading.close
  cases is : r.stack with
  | nil => rfl
  | cons entry outer =>
    obtain ⟨o, children⟩ := entry
    dsimp only
    rw [questionsOf_append_node, questionsOf_tree, questionsOf_tree, is, Opened.node, Node.questions]
    simp only [List.reverse_cons, List.flatMap_append, List.flatMap_singleton, List.append_assoc]

theorem close_rest (r : Reading σ κ ν) (raw : String) (typeCell : Cell) : (r.close raw typeCell).rest = r.rest := by
  unfold Reading.close
  split
  · rfl
  · exact append_rest _ _

theorem questionsOf_rows (rows : List Row) (r : Reading σ κ ν) :
    questionsOf (readRows imp r rows).tree = questionsOf r.tree ++ imported imp r.rest rows := by
  induction rows generalizing r with
  | nil => exact (List.append_nil _).symm
  | cons row rows ih =>
    show questionsOf (readRows imp (step imp r row) rows).tree = _
    rw [ih, imported]
    cases typed : row.cells.lookup "type" with
    | none =>
      obtain ⟨found, -, stepped⟩ := @step_untyped _ _ _ imp row r typed
      rw [stepped]
      rfl
    | some typeCell =>
      dsimp only
      cases is : mark imp row with
      | opens k =>
        obtain ⟨typeCell', o, found, s, typed', made, stepped⟩ := step_opens r is
        obtain rfl : typeCell = typeCell' := Option.some.inj (typed.symm.trans typed')
        rw [stepped, made, questionsOf_tree, questionsOf_tree]
        show _ ++ (List.reverse ((o, []) :: r.stack)).flatMap _ ++ _ = _
        rw [List.reverse_cons, List.flatMap_append, List.flatMap_singleton]
        simp [questionsOf]
      | closes k =>
        obtain ⟨typeCell', found, -, stepped⟩ := step_closes r is
        rw [stepped, questionsOf_close, close_rest]
        rfl
      | other =>
        rw [step_question r typed is]
        obtain ⟨made, s⟩ := imp.question row typeCell (rawType typeCell) r.rest
        cases made with
        | none => rfl
        | some node =>
          have rest : (r.asked (some node, s)).rest = s := append_rest _ _
          rw [rest]
          show questionsOf (Reading.append { r with rest := s } (.question node)).tree ++ imported imp s rows = _
          rw [questionsOf_append_node, List.append_assoc]
          rfl

theorem close_structural (r : Reading σ κ ν) (raw : String) (typeCell : Cell) :
    structural (r.close raw typeCell).diagnostics = structural r.diagnostics ∨
      structural (r.close raw typeCell).diagnostics = structural r.diagnostics ++ [neverOpened raw typeCell] := by
  unfold Reading.close
  split
  · exact .inr (structural_append _ _)
  · exact .inl (congrArg structural (append_diagnostics _ _))

theorem reported_errors (rows : List Row) (r : Reading σ κ ν) (held : ∀ d ∈ structural r.diagnostics, d.severity = .error) :
    ∀ d ∈ structural (readRows imp r rows).reported, d.severity = .error := by
  induction rows generalizing r with
  | nil =>
    intro d member
    change d ∈ structural r.reported at member
    rw [Reading.reported, structural_append, structural_unclosed] at member
    rcases List.mem_append.mp member with early | late
    · exact held d early
    · obtain ⟨entry, -, rfl⟩ := List.mem_map.mp late
      rfl
  | cons row rows ih =>
    apply ih
    cases is : mark imp row with
    | other => rwa [(step_other r is).2]
    | opens k =>
      obtain ⟨typeCell, o, found, s, -, made, stepped⟩ := step_opens r is
      rw [stepped]
      show ∀ d ∈ structural (r.diagnostics ++ found), _
      rwa [structural_append, structural_container made, List.append_nil]
    | closes k =>
      obtain ⟨typeCell, found, none, stepped⟩ := step_closes r is
      have before : structural (r.report found).diagnostics = structural r.diagnostics := by
        show structural (r.diagnostics ++ found) = _
        rw [structural_append, none, List.append_nil]
      rw [stepped]
      rcases close_structural (r.report found) (rawType typeCell) typeCell with same | more
      · rwa [same, before]
      · rw [more, before]
        intro d member
        rcases List.mem_append.mp member with early | late
        · exact held d early
        · obtain rfl := List.mem_singleton.mp late
          rfl

/-- The survey is read as its begin and end rows say exactly where no end row closes a container of the other kind in
rows that are level with the kinds ignored. -/
theorem exact_iff (imp : Importer σ κ ν) (rows : List Row) (s : σ) :
    Exact imp rows s ↔ (Level (rows.map (mark imp)) → ¬ Crosses (rows.map (mark imp))) := by
  have reported : structural (readSurvey imp rows s).2.1 = [] ↔ Level (rows.map (mark imp)) := by
    have errors := @reported_iff _ _ _ imp rows ⟨[], [], [], s⟩
    rw [level_iff]
    exact errors.trans (and_iff_right rfl)
  have errors : ∀ d ∈ structural (readSurvey imp rows s).2.1, d.severity = .error :=
    @reported_errors _ _ _ imp rows ⟨[], [], [], s⟩ (by rintro d ⟨⟩)
  have kept : questionsOf (readSurvey imp rows s).1 = imported imp s rows :=
    (@questionsOf_rows _ _ _ imp rows ⟨[], [], [], s⟩)
  constructor
  · rintro ⟨-, unmatched, -⟩ level crosses
    obtain ⟨d, member, -⟩ := unmatched fun matched => (matched_iff.mp matched).2 crosses
    rw [reported.mpr level] at member
    cases member
  · intro uncrossed
    refine ⟨fun matched => ⟨reported.mpr matched.level, ?_⟩, fun unmatched => ?_, kept⟩
    · obtain ⟨nodes, found, s', nested, ran⟩ := nested_level matched.level rfl (⟨[], [], [], s⟩ : Reading σ κ ν)
      have tree : (readSurvey imp rows s).1 = nodes := by
        show (readRows imp ⟨[], [], [], s⟩ rows).tree = nodes
        rw [ran]
        exact List.append_nil nodes
      have rest : (readSurvey imp rows s).2.2 = s' := by
        show (readRows imp ⟨[], [], [], s⟩ rows).rest = s'
        rw [ran]
        rfl
      rw [tree, rest]
      exact nested
    · have some : structural (readSurvey imp rows s).2.1 ≠ [] := by
        intro none
        have level := reported.mp none
        exact unmatched (matched_iff.mpr ⟨level, uncrossed level⟩)
      obtain ⟨d, others, is⟩ := List.exists_cons_of_ne_nil some
      have member : d ∈ structural (readSurvey imp rows s).2.1 := is ▸ List.mem_cons_self
      exact ⟨d, member, errors d member⟩

end Run

def plain : Importer Unit Unit String where
  lower := fun text => text
  identifier name _ _ s := (some name, s)
  members _ _ _ s := ((), s)
  question _ cell _ s := (some cell.value, s)

def typedRow (number : ℕ) (text : String) : Row :=
  ⟨"survey", number, [("type", ⟨⟨"survey", number, "type"⟩, text⟩)]⟩

def crossedRows : List Row := [typedRow 2 "begin group", typedRow 3 "text", typedRow 4 "end repeat"]

/-- A group that an `end repeat` closes: nothing is reported. -/
theorem crossed_rows : structural (readSurvey plain crossedRows ()).2.1 = [] ∧
    ¬ Matched (crossedRows.map (mark plain)) ∧ ¬ Exact plain crossedRows () := by
  have marks : crossedRows.map (mark plain) = [.opens .group, .other, .closes .repeat] := by decide +kernel
  have silent : structural (readSurvey plain crossedRows ()).2.1 = [] := by rfl
  have unmatched : ¬ Matched (crossedRows.map (mark plain)) := by
    rw [marks]
    intro matched
    have kinds := @Matched.pair _ _ [] [.other] [] _ _ matched (.other .nil) rfl
    cases kinds
  refine ⟨silent, unmatched, ?_⟩
  rintro ⟨-, reported, -⟩
  obtain ⟨d, member, -⟩ := reported unmatched
  rw [silent] at member
  cases member

end DataCollectionLab.Xlsform
