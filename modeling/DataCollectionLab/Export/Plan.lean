import DataCollectionLab.Export.Cells
import DataCollectionLab.Form.Formed
import Mathlib.Data.List.Sort

/-!
The shape of an export: which columns exist and in which order. Of several versions of a form the plan is the
union, the oldest version first; a column has the metadata of the version that introduced it.
-/

namespace DataCollectionLab.Export

open Form Lib

inductive ColumnSource where
  | meta_ | field | label | count
  deriving DecidableEq, Repr

structure Column where
  name : String
  source : ColumnSource
  /-- The field, the repeat of a count, the name of a metadata column. -/
  fieldId : Option String := none
  dataType : Option String := none
  component : Option String := none
  label : Option String := none
  repeatId : Option String := none
  versions : List ℕ := []
  /-- The instance slot of a wide export, from one. -/
  position : Option ℕ := none
  deriving DecidableEq

structure FormVersion where
  version : ℕ
  defaultLanguage : String := ""
  document : List Node
  form : CompiledForm
  compiled : compile document = .ok form

def metaColumns : List (String × String) :=
  [("submission_id", "Submission id"), ("form_id", "Form"), ("form_version", "Form version"),
    ("submission_status", "Status"), ("device_id", "Origin device"), ("created_by", "Created by"),
    ("started_at", "Started at"), ("finalized_at", "Finalized at"), ("received_at", "Received at")]

def repeatKeyColumns : List (String × String) :=
  [("submission_id", "Submission id"), ("instance_id", "Instance id"), ("instance_index", "Position in the list")]

def labelSuffix : String := "_label"

def countSuffix : String := "_count"

/-- The names that `claim` tries after the wanted one is taken. -/
def serialName (wanted : String) (n : ℕ) : String := wanted ++ "_" ++ toString (n + 2)

/-- `_Names.claim` of a derived name. One more try than names are taken is enough. -/
def claim (taken : List String) (wanted : String) : String :=
  if wanted ∈ taken then
    (((List.range (taken.length + 1)).map (serialName wanted)).find? (· ∉ taken)).getD wanted
  else wanted

/-- What `emit` tells columns apart by. -/
abbrev ColumnKey := Option String × String × Option String × ColumnSource

def Column.key (column : Column) (place : Option String) : ColumnKey :=
  (place, column.fieldId.getD column.name, column.component, column.source)

def Column.holdsValue (column : Column) : Bool := column.source = .field || column.source = .label

def labelOf (labels : Texts) (defaultLanguage : String) (language : Option String) : Option String :=
  let wanted := match language with
    | some language => if language = "" then defaultLanguage else language
    | none => defaultLanguage
  match labels.lookup wanted with
  | some text => some text
  | none =>
    match labels.lookup defaultLanguage with
    | some text => some text
    | none => labels.head?.map (·.2)

def columnsFor (fieldId dataType : String) (label : Option String) (place : Option String) (version : ℕ) : List Column :=
  let column (name : String) (source : ColumnSource) (part : Option String) : Column :=
    { name := name, source := source, fieldId := some fieldId, dataType := some dataType, component := part
      label := label, repeatId := place, versions := [version] }
  if dataType = "note" then []
  else
    match components dataType with
    | some parts => parts.map fun part => column (fieldId ++ "_" ++ part) .field (some part)
    | none =>
      if dataType ∈ choiceTypes then [column fieldId .field none, column (fieldId ++ labelSuffix) .label none]
      else [column fieldId .field none]

structure RepeatColumns where
  repeatId : String
  names : List String
  columns : List Column := []
  versions : List ℕ := []

/-- The variables of `build_plan`. -/
structure Planning where
  parentNames : List String
  parent : List Column := []
  repeats : List RepeatColumns := []
  /-- `versions`, whose keys are `seen`. -/
  versions : List (ColumnKey × List ℕ) := []
  datasetFields : List (String × String) := []

namespace Planning

variable (plan : Planning)

def columnsAt : Option String → List Column
  | none => plan.parent
  | some rid => ((plan.repeats.find? (·.repeatId = rid)).map (·.columns)).getD []

def seen (key : ColumnKey) : Bool := plan.versions.any (·.1 = key)

def namesAt : Option String → List String
  | none => plan.parentNames
  | some rid => ((plan.repeats.find? (·.repeatId = rid)).map (·.names)).getD []

def amend (rid : String) (change : RepeatColumns → RepeatColumns) : Planning :=
  { plan with repeats := plan.repeats.map fun r => if r.repeatId = rid then change r else r }

def take (place : Option String) (name : String) : Planning :=
  match place with
  | none => { plan with parentNames := plan.parentNames ++ [name] }
  | some rid => plan.amend rid fun r => { r with names := r.names ++ [name] }

def emit (column : Column) (place : Option String) : Planning :=
  let key := column.key place
  if plan.seen key then
    { plan with versions := plan.versions.map fun entry =>
        if entry.1 = key then (key, entry.2 ++ column.versions) else entry }
  else
    let plan := { plan with versions := plan.versions ++ [(key, column.versions)] }
    match place with
    | none => { plan with parent := plan.parent ++ [column] }
    | some rid => plan.amend rid fun r => { r with columns := r.columns ++ [column] }

def addColumn (place : Option String) (column : Column) : Planning :=
  let own := column.source = .field ∧ column.component = none
  let name := if own then column.name else claim (plan.namesAt place) column.name
  (plan.take place name).emit { column with name := name } place

def openRepeat (reserved : List String) (rid : String) (version : ℕ) : Planning :=
  let plan := if plan.repeats.any (·.repeatId = rid) then plan
    else { plan with repeats := plan.repeats ++ [{ repeatId := rid, names := reserved }] }
  plan.amend rid fun r => { r with versions := r.versions ++ [version] }

def opened (reserved : List String) (place : Option String) (version : ℕ) : Planning :=
  match place with
  | none => plan
  | some rid => plan.openRepeat reserved rid version

def addField (reserved : List String) (language : Option String) (plan : Planning) (entry : FormVersion × CompiledField) :
    Planning :=
  let (v, cf) := entry
  let plan := plan.opened reserved cf.repeatId v.version
  let plan := match cf.choiceQuery with
    | none => plan
    | some query => { plan with
        datasetFields := (plan.datasetFields.filter (·.1 ≠ cf.fieldId)) ++ [(cf.fieldId, query.dataset)] }
  (columnsFor cf.fieldId cf.node.dataType (labelOf cf.node.label v.defaultLanguage language) cf.repeatId v.version).foldl
    (fun plan column => plan.addColumn cf.repeatId column) plan

def addCount (plan : Planning) (r : RepeatColumns) : Planning :=
  let name := claim plan.parentNames (r.repeatId ++ countSuffix)
  (plan.take none name).emit
    { name := name, source := .count, fieldId := some r.repeatId, dataType := some "integer"
      label := some ("Number of " ++ r.repeatId), versions := (r.versions.insertionSort (· ≤ ·)).dedup } none

/-- `_versioned`. -/
def finalise (columns : List Column) : List Column :=
  columns.map fun column =>
    { column with versions :=
        (((plan.versions.lookup (column.key column.repeatId)).getD []).insertionSort (· ≤ ·)).dedup }

end Planning

structure ColumnPlan where
  parent : List Column := []
  repeats : List (String × List Column) := []
  versions : List ℕ := []
  datasetFields : List (String × String) := []

/-- The columns that `names` gives the metadata. -/
def claimMeta (place : Option String) : List String → List (String × String) → List Column
  | _, [] => []
  | taken, (name, title) :: rest =>
    let given := claim taken name
    { name := given, source := .meta_, fieldId := some name, label := some title, repeatId := place } ::
      claimMeta place (taken ++ [given]) rest

section Build

variable (forms : List FormVersion) (language : Option String)

def ordered : List FormVersion := forms.insertionSort fun a b => a.version ≤ b.version

def planFields : List (FormVersion × CompiledField) := (ordered forms).flatMap fun v => v.form.fields.map (v, ·)

def reservedNames : List String := (planFields forms).map fun entry => entry.2.fieldId

def planned : Planning :=
  (planFields forms).foldl (Planning.addField (reservedNames forms) language) { parentNames := reservedNames forms }

def buildPlan : ColumnPlan :=
  let fields := planned forms language
  let plan := fields.repeats.foldl Planning.addCount fields
  { parent := claimMeta none plan.parentNames metaColumns ++ plan.finalise plan.parent
    repeats := plan.repeats.map fun r => (r.repeatId, claimMeta (some r.repeatId) r.names repeatKeyColumns ++ plan.finalise r.columns)
    versions := (ordered forms).map (·.version)
    datasetFields := plan.datasetFields }

end Build

end DataCollectionLab.Export
