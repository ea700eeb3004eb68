import DataCollectionLab.Form.Resolve

/-!
A form being answered: the rows of its repeats, its values and the state of every field. What the two
engines do alike is written once, over what they do each in its own way.
-/

namespace DataCollectionLab.Form

inductive FieldError where
  | required
  | choice
  | constraint (message : Texts) (severity : String)

structure FieldState where
  path : String
  dataType : String
  relevant : Bool := true
  required : Bool := false
  readOnly : Bool := false
  value : Value := .null
  valid : Bool := true
  errors : List FieldError := []

/-- `FormInstance`. -/
structure FormInstance where
  /-- The instance ids of each repeat, in order. -/
  instances : String → Option (List String)
  /-- The source row of an instance, `some none` of one that was added. -/
  rowKeys : String → String → Option (Option String)
  rowLabels : String → String → Option Texts
  rowsResolved : List String
  serial : ℕ
  values : String → Option Value
  states : String → Option FieldState

/-- `DatasetSource.rows`: the rows of a dataset that match a selector, and one more column where it is given. -/
abbrev DatasetSource := String → List (String × Value) → Option (String × Value) → List (String → Option Value)

structure Session where
  today : String
  now : String
  metadata : String → Option Value := fun _ => none
  datasets : DatasetSource := fun _ _ _ => []

abbrev Run := EStateM Failure FormInstance

def Run.lift {α : Type} : Except Failure α → Run α
  | .ok a => pure a
  | .error failure => throw failure

structure Runtime where
  evaluate : Context → Expr → Except Failure Value
  /-- How many rows a count asks for. -/
  count : Value → Except Failure ℕ
  /-- A path by position as one by id. -/
  canonical : (String → Option (List String)) → String → Except Failure String
  evaluateField : CompiledForm → Session → CompiledField → String → Option (String × String) → Run Unit

namespace FormInstance

variable (s : FormInstance)

def rows (rid : String) : List String := (s.instances rid).getD []

def setRows (rid : String) (ordered : List String) : FormInstance :=
  { s with instances := fun other => if other = rid then some ordered else s.instances other }

def setValue (path : String) (value : Value) : FormInstance :=
  { s with values := fun other => if other = path then some value else s.values other }

def setRowKey (rid iid : String) (key : Option String) : FormInstance :=
  { s with rowKeys := fun other => if other = rid then Function.update (s.rowKeys rid) iid (some key) else s.rowKeys other }

def setRowLabel (rid iid : String) (label : Texts) : FormInstance :=
  { s with rowLabels := fun other => if other = rid then Function.update (s.rowLabels rid) iid (some label) else s.rowLabels other }

/-- `self.states[path]`, changed in place. -/
def changeState (path : String) (change : FieldState → FieldState) : FormInstance :=
  { s with states := fun other => if other = path then (s.states path).map change else s.states other }

def context (session : Session) (scope : Option (String × String)) : Context where
  values := s.values
  today := session.today
  now := session.now
  metadata := session.metadata
  scope := scope
  instances := s.instances
  datasets := some fun dataset column key => session.datasets dataset [(column, key)] none

end FormInstance

theorem setValue_same {s : FormInstance} {path : String} {value : Value} (kept : s.values path = some value) :
    s.setValue path value = s := by
  unfold FormInstance.setValue
  congr 1
  funext other
  split
  · rename_i same
    rw [same, kept]
  · rfl

def CompiledForm.fieldsOf (form : CompiledForm) (rid : String) : List CompiledField :=
  form.fields.filter fun cf => cf.repeatId = some rid

/-- The number of an id that an engine minted: `SERIAL_ID`. -/
def serialOf (iid : String) : Option ℕ :=
  match iid.toList with
  | 'i' :: ds =>
    if ds = [] then none else (ds.mapM fun c => Reference.digitOf c.toNat).map (Numeral.natOfDigits 10)
  | _ => none

def increasing : List ℕ → Bool
  | a :: b :: rest => a < b && increasing (b :: rest)
  | _ => true

section Rows

variable (form : CompiledForm)

/-- `_assert_creation_order`: an id from elsewhere ends the check. -/
def assertCreationOrder (rid : String) : Run Unit := do
  let s ← get
  match (s.rows rid).mapM serialOf with
  | none => return ()
  | some serials =>
    if increasing serials then return ()
    else throw (.compile ("repeat " ++ rid ++ " instances are not in creation order: ['" ++
      "', '".intercalate (s.rows rid) ++ "']"))

def cellAt (rid iid path : String) : Option CompiledField :=
  (form.fieldsOf rid).find? fun cf => instancePath rid iid cf.fieldId = path

def openCells (rid iid : String) (s : FormInstance) : FormInstance :=
  { s with
    values := fun path => if (cellAt form rid iid path).isSome then some .null else s.values path
    states := fun path =>
      match cellAt form rid iid path with
      | some cf => some { path := path, dataType := cf.node.dataType }
      | none => s.states path }

def createInstance (rid : String) (rowKey : Option String) : Run String := do
  modify fun s => { s with serial := s.serial + 1 }
  let iid := "i" ++ toString (← get).serial
  modify fun s => s.setRows rid (s.rows rid ++ [iid])
  modify fun s => s.setRowKey rid iid rowKey
  assertCreationOrder rid
  modify (openCells form rid iid)
  return iid

def destroyInstance (rid iid : String) (s : FormInstance) : FormInstance :=
  { s with
    rowKeys := fun other => if other = rid then Function.update (s.rowKeys rid) iid none else s.rowKeys other
    rowLabels := fun other => if other = rid then Function.update (s.rowLabels rid) iid none else s.rowLabels other
    values := fun path => if (cellAt form rid iid path).isSome then none else s.values path
    states := fun path => if (cellAt form rid iid path).isSome then none else s.states path }

def popInstance (rid : String) : Run Unit :=
  modify fun s =>
    match (s.rows rid).getLast? with
    | some iid => destroyInstance form rid iid (s.setRows rid (s.rows rid).dropLast)
    | none => s

end Rows

section Relevance

variable (evaluate : Context → Expr → Except Failure Value) (form : CompiledForm)

def decideAt (nullIs : Bool) (ctx : Context) (expr : Expr) : Except Failure Bool := do
  Reference.coerceBoolean nullIs (← evaluate ctx expr)

def chainRelevant (ctx : Context) : List String → Except Failure Bool
  | [] => .ok true
  | cid :: rest =>
    match (form.container? cid).bind Container.relevant with
    | none => chainRelevant ctx rest
    | some relevant => do
      if ← decideAt evaluate true ctx relevant then chainRelevant ctx rest else return false

def containerRelevant (session : Session) (s : FormInstance) (cid : String) : Except Failure Bool :=
  match form.container? cid with
  | none => .ok true
  | some container => chainRelevant evaluate form (s.context session none) (container.ancestors ++ [cid])

def fieldRelevant (ctx : Context) (cf : CompiledField) : Except Failure Bool := do
  if ← chainRelevant evaluate form ctx cf.ancestors then
    match cf.node.relevant with
    | none => return true
    | some relevant => decideAt evaluate true ctx relevant
  else return false

/-- `required` and `readOnly` of a field. -/
def flagOf (ctx : Context) : Option Flag → Except Failure Bool
  | none => .ok false
  | some (.fixed value) => .ok value
  | some (.expr expr) => decideAt evaluate false ctx expr

end Relevance

section Choices

variable (evaluate : Context → Expr → Except Failure Value) (form : CompiledForm) (session : Session)

def keeps (filter : Option Expr) (ctx : Context) (row : String → Option Value) : Except Failure Bool :=
  match filter with
  | none => .ok true
  | some expr => decideAt evaluate false { ctx with row := some row } expr

def instanceRow (s : FormInstance) (rid iid : String) (column : String) : Option Value :=
  if ((form.fieldsOf rid).find? fun cf => cf.fieldId = column).isSome then
    some ((s.values (instancePath rid iid column)).getD .null)
  else none

/-- `_rows_instances` asked of one id: an instance that the list offers. -/
def offersInstance (s : FormInstance) (query : RowsQuery) (scope : Option (String × String)) (iid : String) :
    Except Failure Bool :=
  if iid ∉ s.rows query.repeatId then .ok false
  else if query.excludeSelf ∧ scope = some (query.repeatId, iid) then .ok false
  else keeps evaluate query.filter (s.context session scope) (instanceRow form s query.repeatId iid)

def offersRow (s : FormInstance) (query : ChoiceQuery) (scope : Option (String × String)) (value : Value) :
    Except Failure Bool := do
  let ctx := s.context session scope
  let selector ← query.selector.mapM fun term => do return (term.1, ← evaluate ctx term.2)
  let kept ← (session.datasets query.dataset selector (some (query.valueColumn, value))).mapM
    (keeps evaluate query.residual ctx)
  return kept.any id

def answersOf (dataType : String) : Value → List Value
  | .sequence items => if dataType = "select_multiple" then items else [.sequence items]
  | value => [value]

def someOutside (offers : Value → Except Failure Bool) (answers : List Value) : Except Failure Bool := do
  let offered ← answers.mapM offers
  return offered.any (!·)

end Choices

section Recalculate

variable (runtime : Runtime) (form : CompiledForm) (session : Session)

/-- One row of a source; a binding is of the column `value`, by the checks of the compiler. -/
def seedRow (rid : String) (source : RowSource) (item : RowItem) : Run Unit := do
  let iid ← createInstance form rid (some item.value)
  item.label.forM fun label => modify fun s => s.setRowLabel rid iid label
  source.bind.forM fun binding => do
    if binding.2 = "value" then
      let path := instancePath rid iid binding.1
      if ((← get).states path).isNone then throw (.raised "KeyError")
      modify fun s => (s.setValue path (.text item.value)).changeState path fun state =>
        { state with value := .text item.value }

def resolveRows (node : Repeat) : Run Unit := do
  match node.rowSource with
  | none => return ()
  | some source =>
    let s ← get
    if node.id ∈ s.rowsResolved then return ()
    if ← Run.lift (containerRelevant runtime.evaluate form session s node.id) then
      modify fun s => { s with rowsResolved := node.id :: s.rowsResolved }
      source.items.forM (seedRow form node.id source)

/-- The count of a repeat that a `countExpr` sizes. -/
def settleCount (node : Repeat) : Run Unit := do
  match node.countExpr with
  | none => return ()
  | some countExpr =>
    let s ← get
    let wanted ← Run.lift (runtime.evaluate (s.context session none) countExpr >>= runtime.count)
    assertCreationOrder node.id
    (List.replicate (wanted - (s.rows node.id).length) ()).forM fun _ => discard (createInstance form node.id none)
    (List.replicate ((s.rows node.id).length - wanted) ()).forM fun _ => popInstance form node.id

def evaluateFields (fid : String) : Run Unit := do
  match form.field? fid with
  | none => throw (.raised "KeyError")
  | some cf =>
    match cf.repeatId with
    | none => runtime.evaluateField form session cf fid none
    | some rid =>
      ((← get).rows rid).forM fun iid =>
        runtime.evaluateField form session cf (instancePath rid iid fid) (some (rid, iid))

def recalculate : Run Unit := do
  form.repeats.forM (resolveRows runtime form session)
  form.repeats.forM (settleCount runtime form session)
  form.topoOrder.forM (evaluateFields runtime form session)

end Recalculate

section Operations

variable (runtime : Runtime) (form : CompiledForm) (session : Session)

def blank : FormInstance where
  instances := fun rid => if (form.repeat? rid).isSome then some [] else none
  rowKeys := fun _ _ => none
  rowLabels := fun _ _ => none
  rowsResolved := []
  serial := 0
  values := fun path =>
    (form.fields.find? fun cf => cf.fieldId = path ∧ cf.repeatId = none).map fun _ => .null
  states := fun path =>
    (form.fields.find? fun cf => cf.fieldId = path ∧ cf.repeatId = none).map fun cf =>
      { path := path, dataType := cf.node.dataType }

def seedFloor (node : Repeat) : Run Unit :=
  if node.rowSource.isSome then return ()
  else (List.replicate (node.minInstances.getD 0).toNat ()).forM fun _ => discard (createInstance form node.id none)

/-- `FormInstance.__init__`. -/
def construct : Run Unit := do
  set (blank form)
  form.repeats.forM (seedFloor form)
  recalculate runtime form session

def addInstance (rid : String) : Run String := do
  match form.repeat? rid with
  | none => throw (.compile ("unknown repeat: " ++ rid))
  | some node =>
    if node.countExpr.isSome then
      throw (.compile ("repeat " ++ rid ++ " is controlled by countExpr; instances cannot be added"))
    if node.rowSource.any fun source => !source.allowAdd then
      throw (.compile ("repeat " ++ rid ++ " takes its rows from a rowSource that does not permit adding"))
    match node.maxInstances with
    | some maximum =>
      if maximum ≤ ((← get).rows rid).length then
        throw (.compile ("repeat " ++ rid ++ " is at its maximum of " ++ toString maximum))
    | none => pure ()
    let iid ← createInstance form rid none
    recalculate runtime form session
    return iid

def deleteInstance (rid : String) (index : ℤ) : Run Unit := do
  match form.repeat? rid with
  | none => throw (.compile ("unknown repeat: " ++ rid))
  | some node =>
    let ordered := (← get).rows rid
    if node.countExpr.isSome then
      throw (.compile ("repeat " ++ rid ++ " is controlled by countExpr; instances cannot be removed"))
    if node.rowSource.any fun source => !source.allowDelete then
      throw (.compile ("repeat " ++ rid ++ " takes its rows from a rowSource that does not permit deleting"))
    if index < 0 ∨ ordered.length ≤ index then
      throw (.compile ("no instance at " ++ rid ++ "[" ++ toString index ++ "]"))
    let minimum := if node.rowSource.isSome then none else node.minInstances
    if minimum.any fun minimum => (ordered.length : ℤ) ≤ minimum then
      throw (.compile ("repeat " ++ rid ++ " is at its minimum of " ++ toString (minimum.getD 0)))
    modify fun s => s.setRows rid (ordered.eraseIdx index.toNat)
    assertCreationOrder rid
    modify (destroyInstance form rid (ordered.getD index.toNat ""))
    recalculate runtime form session

/-- One answer of `set_many`. -/
def placeAnswer (answer : String × Value) : Run Unit := do
  let canonical ← Run.lift (runtime.canonical (← get).instances answer.1)
  if ((← get).values canonical).isNone then throw (.compile ("unknown field: " ++ answer.1))
  modify fun s => s.setValue canonical answer.2

def setMany (answers : List (String × Value)) : Run Unit := do
  answers.forM (placeAnswer runtime)
  recalculate runtime form session

end Operations

end DataCollectionLab.Form
