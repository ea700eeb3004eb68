import DataCollectionLab.Export.Plan

/-!
Projections into tables. A long export has a table of submissions and one of each repeat; a wide one has the
instances of a repeat beside each other on the row of their submission.
-/

namespace DataCollectionLab.Export

open Form Lib

structure RepeatRow (ν : Type) where
  instanceId : String
  index : ℕ
  /-- By field id. -/
  cells : String → Option ν

structure ExportProjection (ν : Type) where
  top : String → Option ν := fun _ => none
  repeats : String → Option (List (RepeatRow ν)) := fun _ => none
  /-- The paths the server cannot read. -/
  unreadable : List String := []
  relevanceUncertain : List String := []
  unmapped : List String := []

/-- One submission, projected, with its own version's names. A moment is its `isoformat`. -/
structure SubmissionRecord where
  submissionId : String
  formKey : String
  formVersion : ℕ
  status : String
  deviceId : Option String := none
  createdBy : Option String := none
  startedAt : Option String := none
  finalizedAt : Option String := none
  receivedAt : Option String := none
  projection : ExportProjection Json
  /-- Field id to choice code to name. -/
  labels : String → String → Option String := fun _ _ => none

inductive Shape where
  | long | wide
  deriving DecidableEq, Repr

inductive TableKind where
  | submissions | repeated
  deriving DecidableEq, Repr

structure Table where
  name : String
  kind : TableKind
  columns : List Column
  rows : List (List Cell)
  repeatId : Option String := none

def textOr (text : Option String) : Cell := text.elim .empty .text

/-- `_META`. -/
def metaCell (record : SubmissionRecord) (name : String) : Cell :=
  if name = "submission_id" then .text record.submissionId
  else if name = "form_id" then .text record.formKey
  else if name = "form_version" then .int record.formVersion
  else if name = "submission_status" then .text record.status
  else if name = "device_id" then textOr record.deviceId
  else if name = "created_by" then textOr record.createdBy
  else if name = "started_at" then textOr record.startedAt
  else if name = "finalized_at" then textOr record.finalizedAt
  else if name = "received_at" then textOr record.receivedAt
  else .empty

def metaOrCount (column : Column) (record : SubmissionRecord) : Cell :=
  if column.source = .meta_ then metaCell record (column.fieldId.getD "")
  else
    match record.projection.repeats (column.fieldId.getD "") with
    | none => .empty
    | some rows => .int rows.length

def named (py : Python) (lookup : String → Option String) (code : Json) : String := (lookup (str py code)).getD (str py code)

/-- `_label`. -/
def labelCell (py : Python) (value : Json) (dataType : String) (lookup : String → Option String) : Cell :=
  match value with
  | .null => .empty
  | value =>
    if dataType = "select_multiple" then
      match value with
      | .arr (item :: rest) => .text (labelSeparator.intercalate ((item :: rest).map (named py lookup)))
      | _ => .empty
    else .text (named py lookup value)

structure Spot where
  front : String
  cells : String → Option Json

def Spot.path (spot : Spot) (fid : String) : String := if spot.front = "" then fid else spot.front ++ "." ++ fid

def RepeatRow.spot (row : RepeatRow Json) (rid : String) : Spot := ⟨rid ++ "[" ++ row.instanceId ++ "]", row.cells⟩

namespace SubmissionRecord

variable (record : SubmissionRecord)

def top : Spot := ⟨"", record.projection.top⟩

def rows (rid : String) : List (RepeatRow Json) := (record.projection.repeats rid).getD []

def spots : Option String → List Spot
  | none => [record.top]
  | some rid => (record.rows rid).map (·.spot rid)

end SubmissionRecord

section Cells

variable (py : Python) (record : SubmissionRecord)

def written (source : ColumnSource) (fid dataType : String) (part : Option String) (value : Json) : Except Failure Cell :=
  if source = .label then .ok (labelCell py value dataType (record.labels fid)) else render py value dataType part

/-- `_cell`. A label column reads no type as the empty text. -/
def cellOf (column : Column) (spot : Spot) : Except Failure Cell :=
  let fid := column.fieldId.getD ""
  if spot.path fid ∈ record.projection.unreadable then .ok (.text encrypted)
  else
    match spot.cells fid with
    | none => .ok .empty
    | some value =>
      written py record column.source fid (column.dataType.getD (if column.source = .label then "" else "text"))
        column.component value

def parentRow (columns : List Column) : Except Failure (List Cell) :=
  columns.mapM fun column =>
    if column.holdsValue then cellOf py record column record.top else .ok (metaOrCount column record)

def keyCell (row : RepeatRow Json) (name : String) : Cell :=
  if name = "submission_id" then .text record.submissionId
  else if name = "instance_id" then .text row.instanceId
  else if name = "instance_index" then .int row.index
  else .empty

def repeatRow (columns : List Column) (rid : String) (row : RepeatRow Json) : Except Failure (List Cell) :=
  columns.mapM fun column =>
    if column.source = .meta_ then .ok (keyCell record row (column.fieldId.getD ""))
    else cellOf py record column (row.spot rid)

end Cells

section Tables

variable (py : Python) (plan : ColumnPlan) (records : List SubmissionRecord)

def instancesOf (rid : String) : List (SubmissionRecord × RepeatRow Json) :=
  records.flatMap fun record => (record.rows rid).map (record, ·)

def repeatRows (columns : List Column) (rid : String) : Except Failure (List (List Cell)) :=
  (instancesOf records rid).mapM fun entry => repeatRow py entry.1 columns rid entry.2

def widest (rid : String) : ℕ := (records.map fun record => (record.rows rid).length).foldr max 0

def slots : List (String × ℕ × Column) :=
  plan.repeats.flatMap fun entry =>
    (List.range (widest records entry.1)).flatMap fun slot =>
      (entry.2.filter (·.source ≠ .meta_)).map fun column => (entry.1, slot, column)

def flattened : List String → List (String × ℕ × Column) → List (String × ℕ × Column)
  | _, [] => []
  | taken, (rid, slot, column) :: rest =>
    let name := claim taken (rid ++ "_" ++ toString (slot + 1) ++ "_" ++ column.name)
    (rid, slot, { column with name := name, position := some (slot + 1) }) :: flattened (taken ++ [name]) rest

def slotCell (record : SubmissionRecord) (entry : String × ℕ × Column) : Except Failure Cell :=
  match (record.rows entry.1)[entry.2.1]? with
  | none => .ok .empty
  | some row => cellOf py record entry.2.2 (row.spot entry.1)

def wideTable (name : String) : Except Failure Table := do
  let wide := flattened (plan.parent.map (·.name)) (slots plan records)
  let rows ← records.mapM fun record => do
    let front ← parentRow py record plan.parent
    let back ← wide.mapM (slotCell py record)
    return front ++ back
  return { name := name, kind := .submissions, columns := plan.parent ++ wide.map (·.2.2), rows := rows }

def repeatTable (baseName : String) (entry : String × List Column) : Except Failure Table := do
  let rows ← repeatRows py records entry.2 entry.1
  return { name := baseName ++ "-" ++ entry.1, kind := .repeated, columns := entry.2, rows := rows, repeatId := some entry.1 }

def buildTables (shape : Shape) (baseName : String) : Except Failure (List Table) :=
  match shape with
  | .wide => do return [← wideTable py plan records baseName]
  | .long => do
    let parent ← records.mapM fun record => parentRow py record plan.parent
    let repeats ← plan.repeats.mapM (repeatTable py records baseName)
    return { name := baseName, kind := .submissions, columns := plan.parent, rows := parent } :: repeats

end Tables

end DataCollectionLab.Export
