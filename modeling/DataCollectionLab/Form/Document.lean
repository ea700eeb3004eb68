import DataCollectionLab.Form.Reference
import DataCollectionLab.Form.Numerals
import DataCollectionLab.Lib.Kahn

/-!
A form document, and what `CompiledForm` makes of it: its fields with what each one depends on, its
containers, its repeats, and the order of a pass. Warnings are left out.
-/

namespace DataCollectionLab.Form

open Lib

abbrev Texts := List (String × String)

/-- `required` and `readOnly`. -/
inductive Flag where
  | fixed (value : Bool)
  | expr (value : Expr)

/-- A `choices.kind = "rows"` block. -/
structure RowsQuery where
  repeatId : String
  excludeSelf : Bool := false
  filter : Option Expr := none

inductive ChoiceList where
  | inline (values : List String)
  | dataset (choices : Choices)
  | rows (query : RowsQuery)

structure Question where
  id : String
  dataType : String
  relevant : Option Expr := none
  constraint : Option Expr := none
  calculate : Option Expr := none
  default : Option Expr := none
  required : Option Flag := none
  readOnly : Option Flag := none
  choices : Option ChoiceList := none
  label : Texts := []
  labelArgs : List Expr := []
  constraintMessage : Texts := []
  constraintMessageArgs : List Expr := []
  severity : Option String := none

structure Group where
  id : String
  relevant : Option Expr := none
  appearance : Option String := none

structure RowItem where
  value : String
  label : Option Texts := none

structure RowSource where
  kind : String
  items : List RowItem := []
  /-- A question of the repeat to the column it takes. -/
  bind : List (String × String) := []
  allowAdd : Bool := false
  allowDelete : Bool := false

structure Repeat where
  id : String
  relevant : Option Expr := none
  countExpr : Option Expr := none
  minInstances : Option ℤ := none
  maxInstances : Option ℤ := none
  rowSource : Option RowSource := none
  summaryLabel : Texts := []
  summaryLabelArgs : List Expr := []

inductive Node where
  | question (node : Question)
  | group (node : Group) (children : List Node)
  | repeated (node : Repeat) (children : List Node)

def Node.id : Node → String
  | question node => node.id
  | group node _ => node.id
  | repeated node _ => node.id

mutual

/-- `_walk`: every node before its children, with its ancestors. -/
def walkNode (ancestors : List String) : Node → List (Node × List String)
  | .question node => [(.question node, ancestors)]
  | .group node children => (.group node children, ancestors) :: walk (ancestors ++ [node.id]) children
  | .repeated node children => (.repeated node children, ancestors) :: walk (ancestors ++ [node.id]) children

def walk (ancestors : List String) : List Node → List (Node × List String)
  | [] => []
  | node :: rest => walkNode ancestors node ++ walk ancestors rest

end

section References

def metadataPrefix : List Char := "_metadata.".toList

def dependency (path : String) : Option String :=
  if (rowPath path).isSome ∨ metadataPrefix.isPrefixOf path.toList then none
  else
    match cutAt "].".toList path.toList with
    | some (_, field) => some (String.ofList field)
    | none => some path

mutual

/-- `_paths`: every reference of an expression. -/
def paths : Expr → List String
  | .lit _ => []
  | .ref path => [path]
  | .op _ args => pathsAll args
  | .call _ args => pathsAll args

def pathsAll : List Expr → List String
  | [] => []
  | arg :: rest => paths arg ++ pathsAll rest

end

def collectRefs (expr : Expr) : List String := (paths expr).filterMap dependency

/-- The name a dependency leads with: `dep.split("[")[0].split(".")[0]`. -/
def base (dep : String) : String :=
  String.ofList ((dep.toList.takeWhile (· ≠ '[')).takeWhile (· ≠ '.'))

end References

structure CompiledField where
  node : Question
  dependsOn : List String
  ancestors : List String
  /-- The repeat it stands in. -/
  repeatId : Option String
  choiceQuery : Option ChoiceQuery
  rowsQuery : Option RowsQuery

def CompiledField.fieldId (cf : CompiledField) : String := cf.node.id

structure Container where
  id : String
  relevant : Option Expr
  appearance : Option String
  ancestors : List String

structure CompiledForm where
  /-- In the order of the document. -/
  fields : List CompiledField := []
  containers : List Container := []
  repeats : List Repeat := []
  topoOrder : List String := []

namespace CompiledForm

variable (form : CompiledForm)

def order : List String := form.fields.map CompiledField.fieldId

def field? (fid : String) : Option CompiledField := form.fields.find? fun cf => cf.fieldId = fid

def container? (cid : String) : Option Container := form.containers.find? fun c => c.id = cid

def repeat? (rid : String) : Option Repeat := form.repeats.find? fun r => r.id = rid

end CompiledForm

section Compile

/-- `ID_PATTERN.match`. Its `$` lets one line break follow. -/
def idPattern (id : String) : Bool :=
  let rest (c : Char) : Bool := ('a' ≤ c && c ≤ 'z') || ('0' ≤ c && c ≤ '9') || c = '_'
  match id.toList with
  | [] => false
  | first :: others =>
    'a' ≤ first && first ≤ 'z' &&
      (others.all rest || (others.getLast? = some '\n' && others.dropLast.all rest))

def refuse {α : Type} (message : String) : Except Failure α := .error (.compile message)

/-- `repr` of a text without quotes in it. -/
def quote (text : String) : String := "'" ++ text ++ "'"

def checkBinding (rid : String) (own : List String) (binding : String × String) : Except Failure Unit :=
  if binding.1 ∉ own then
    refuse ("repeat " ++ quote rid ++ " binds " ++ quote binding.1 ++
      ", which is not a question inside it; a row's value cannot land in a field that is not per-row")
  else if binding.2 = "label" then
    refuse ("repeat " ++ quote rid ++ " binds " ++ quote binding.1 ++
      " to an inline row's label; only 'value' is bindable, because a label is i18n and an answer is not")
  else if binding.2 ≠ "value" then
    refuse ("repeat " ++ quote rid ++ " binds " ++ quote binding.1 ++ " to " ++ quote binding.2 ++
      "; an inline row has only 'value'")
  else .ok ()

def checkRowSource (node : Repeat) (children : List Node) : Except Failure Unit :=
  match node.rowSource with
  | none => .ok ()
  | some source =>
    if node.countExpr.isSome then
      refuse ("repeat " ++ quote node.id ++ " carries both countExpr and rowSource; " ++
        "countExpr says how many and rowSource says which, and nothing arbitrates between them")
    else if source.kind = "dataset" then
      refuse ("repeat " ++ quote node.id ++ " uses rowSource kind 'dataset', which is " ++
        "specified but not yet implemented: it needs _metadata.case_key " ++
        "(Phase 3 item 2) and a dataset version's row order to survive " ++
        "reaching a device (known-defects 16). Use kind 'inline' or wait")
    else if source.kind ≠ "inline" then
      refuse ("repeat " ++ quote node.id ++ " has an unknown rowSource kind " ++ quote source.kind)
    else
      let own := (walk [] children).filterMap fun visit =>
        match visit.1 with
        | .question node => some node.id
        | .group .. | .repeated .. => none
      source.bind.forM (checkBinding node.id own)

def flagRefs : Option Flag → List String
  | some (.expr value) => collectRefs value
  | some (.fixed _) | none => []

def optionRefs (expr : Option Expr) : List String := expr.elim [] collectRefs

def rowsRefs (query : RowsQuery) : List String :=
  query.filter.elim [] fun filter => collectRefs filter ++ (paths filter).filterMap rowPath

def queryRefs (query : ChoiceQuery) : List String :=
  query.selector.flatMap (fun term => collectRefs term.2) ++ optionRefs query.residual

def compileRowsChoices : ChoiceList → Option RowsQuery
  | .rows query => some query
  | .inline _ | .dataset _ => none

/-- `compile_choices` of a block of any kind. -/
def compileChoiceList : ChoiceList → Option ChoiceQuery
  | .dataset choices => compileChoices choices
  | .inline _ | .rows _ => none

/-- `depends_on` of a question, before its rows list is linked. -/
def dependencies (form : CompiledForm) (node : Question) (ancestors : List String) : List String :=
  optionRefs node.relevant ++ optionRefs node.constraint ++ optionRefs node.calculate ++ flagRefs node.required ++
    flagRefs node.readOnly ++ optionRefs node.default ++ node.labelArgs.flatMap collectRefs ++
    node.constraintMessageArgs.flatMap collectRefs ++
    (ancestors.filterMap form.container?).flatMap (fun container => optionRefs container.relevant) ++
    (node.choices.bind compileRowsChoices).elim [] rowsRefs ++
    (node.choices.bind compileChoiceList).elim [] queryRefs

def enclosingRepeats (form : CompiledForm) (ancestors : List String) : List String :=
  ancestors.filter fun ancestor => (form.repeat? ancestor).isSome

def compileRepeat (form : CompiledForm) (node : Repeat) (children : List Node) (ancestors : List String) :
    Except Failure CompiledForm := do
  if enclosingRepeats form ancestors ≠ [] then
    refuse ("nested repeats are not supported in IR v0.1 (repeat " ++ quote node.id ++ ")")
  match (ancestors.filterMap form.container?).find? fun container => container.appearance = some "field-list" with
  | some container =>
    refuse ("a repeat cannot appear inside a field-list group (repeat " ++ quote node.id ++ " inside group " ++
      quote container.id ++ ")")
  | none => pure ()
  checkRowSource node children
  return { form with
    repeats := form.repeats ++ [node]
    containers := form.containers ++ [⟨node.id, node.relevant, none, ancestors⟩] }

def compileQuestion (form : CompiledForm) (node : Question) (ancestors : List String) : Except Failure CompiledForm := do
  let enclosing := enclosingRepeats form ancestors
  match node.choices.bind compileRowsChoices with
  | some query =>
    if query.excludeSelf ∧ query.repeatId ∉ enclosing then
      refuse (node.id ++ ": choices.excludeSelf, but the question is not inside repeat " ++ quote query.repeatId ++
        ", so there is no instance to exclude (§3.3, §10.2)")
  | none => pure ()
  return { form with
    fields := form.fields ++ [{
      node := node
      dependsOn := dependencies form node ancestors
      ancestors := ancestors
      repeatId := enclosing.head?
      choiceQuery := node.choices.bind compileChoiceList
      rowsQuery := node.choices.bind compileRowsChoices }] }

def compileNode (form : CompiledForm) (visit : Node × List String) : Except Failure CompiledForm := do
  let (node, ancestors) := visit
  if idPattern node.id = false then refuse ("invalid id format: " ++ quote node.id)
  if (form.field? node.id).isSome ∨ (form.container? node.id).isSome then refuse ("duplicate id: " ++ node.id)
  if 1 < (enclosingRepeats form ancestors).length then
    refuse ("nested repeats are not supported in IR v0.1 (field " ++ quote node.id ++ ")")
  match node with
  | .question node => compileQuestion form node ancestors
  | .group node _ =>
    return { form with containers := form.containers ++ [⟨node.id, node.relevant, node.appearance, ancestors⟩] }
  | .repeated node children => compileRepeat form node children ancestors

/-- `_link_rows_choices`, of one field. -/
def linkRowsChoices (form : CompiledForm) (cf : CompiledField) : Except Failure CompiledField :=
  match cf.rowsQuery with
  | none => .ok cf
  | some query =>
    match form.repeat? query.repeatId with
    | none =>
      refuse (cf.fieldId ++ ": choices name repeat " ++ quote query.repeatId ++ ", which is not a repeat in this form")
    | some node => .ok { cf with dependsOn := cf.dependsOn ++ node.summaryLabelArgs.flatMap collectRefs }

/-- `slot_indices`: every slot of a template, and not the braces that are written twice. -/
def slotIndices : List Char → List ℕ
  | [] => []
  | '\x7b' :: '\x7b' :: rest => slotIndices rest
  | '\x7d' :: '\x7d' :: rest => slotIndices rest
  | '\x7b' :: rest =>
    let found := rest.takeWhile fun c => (Reference.digitOf c.toNat).isSome
    let after := rest.dropWhile fun c => (Reference.digitOf c.toNat).isSome
    -- The digits and the closing brace are passed over again: no slot opens in them.
    if found ≠ [] ∧ after.head? = some '\x7d' then
      found.foldl (fun n c => n * 10 + (Reference.digitOf c.toNat).getD 0) 0 :: slotIndices rest
    else slotIndices rest
  | _ :: rest => slotIndices rest

def checkSlots (nodeId key : String) (strings : Texts) (args : List Expr) : Except Failure Unit := do
  if args ≠ [] then
    strings.forM fun text =>
      match ((slotIndices text.2.toList).filter fun slot => args.length ≤ slot).min? with
      | some slot =>
        refuse (nodeId ++ ": " ++ key ++ "[" ++ text.1 ++ "] uses slot \x7b" ++ toString slot ++ "\x7d and " ++ key ++
          "Args has " ++ toString args.length ++ " argument(s)")
      | none => .ok ()
    (args.flatMap paths).forM fun path =>
      if (rowPath path).isSome then
        refuse (nodeId ++ ": " ++ key ++ "Args reads " ++ quote path ++ ". A label has no candidate row (§7.1).")
      else .ok ()

def checkInterpolation (form : CompiledForm) : Except Failure Unit := do
  form.fields.forM fun cf => do
    checkSlots cf.fieldId "label" cf.node.label cf.node.labelArgs
    checkSlots cf.fieldId "constraintMessage" cf.node.constraintMessage cf.node.constraintMessageArgs
  form.repeats.forM fun node => checkSlots node.id "summaryLabel" node.summaryLabel node.summaryLabelArgs

/-- `_check_references`: by the leading name alone. -/
def checkReferences (form : CompiledForm) : Except Failure Unit :=
  form.fields.forM fun cf =>
    cf.dependsOn.forM fun dep =>
      if (form.field? (base dep)).isSome ∨ (form.container? (base dep)).isSome then .ok ()
      else refuse ("unresolvable reference " ++ quote dep ++ " in field " ++ quote cf.fieldId)

def bases (form : CompiledForm) (p : ℕ) : List ℕ :=
  match form.fields[p]? with
  | none => []
  | some cf => (cf.dependsOn.map base).filterMap fun name =>
      if name = cf.fieldId then none else form.order.idxOf? name

def topologicalOrder (form : CompiledForm) : Except Failure (List String) :=
  let result := (Kahn.order form.fields.length (bases form)).filterMap fun p => form.order[p]?
  if result.length ≠ form.fields.length then
    refuse ("dependency cycle involving: " ++
      ", ".intercalate ((form.order.filter (· ∉ result)).insertionSort (· ≤ ·)))
  else .ok result

def compile (children : List Node) : Except Failure CompiledForm := do
  let form ← (walk [] children).foldlM compileNode {}
  let fields ← form.fields.mapM (linkRowsChoices form)
  let form := { form with fields := fields }
  checkInterpolation form
  checkReferences form
  let topoOrder ← topologicalOrder form
  return { form with topoOrder := topoOrder }

end Compile

end DataCollectionLab.Form
