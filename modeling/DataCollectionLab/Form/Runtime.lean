import DataCollectionLab.Form.Functions
import DataCollectionLab.Form.Instance

/-!
The reference engine's own part of a form instance: how it checks an answer against its list, what it writes
and when, and `restore`.
-/

namespace DataCollectionLab.Form

namespace Reference

section Choices

variable (evaluate : Context → Expr → Except Failure Value) (form : CompiledForm) (session : Session)

/-- `value in permitted`: a set takes what has a hash. -/
def permits (permitted : List String) : Value → Except Failure Bool
  | .text value => .ok (value ∈ permitted)
  | .null | .integer _ | .decimal _ | .bool _ | .dateValue _ => .ok false
  | .sequence _ | .geoPoint .. | .mediaRef .. => .error (.raised "TypeError")

/-- `_values_outside_choices` is not empty. -/
def outsideChoices (s : FormInstance) (cf : CompiledField) (scope : Option (String × String)) (value : Value) :
    Except Failure Bool :=
  match cf.rowsQuery, cf.choiceQuery, cf.node.choices with
  | some query, _, _ =>
    someOutside (fun one =>
      match one with
      | .text iid => offersInstance evaluate form session s query scope iid
      | _ => .ok false) (answersOf cf.node.dataType value)
  | none, some query, _ =>
    someOutside (offersRow evaluate session s query scope) (answersOf cf.node.dataType value)
  | none, none, some (.inline permitted) => someOutside (permits permitted) (answersOf cf.node.dataType value)
  | none, none, _ => .ok false

end Choices

section Fields

variable (evaluate : Context → Expr → Except Failure Value) (form : CompiledForm) (session : Session)
  (cf : CompiledField) (path : String) (scope : Option (String × String))

def change (f : FieldState → FieldState) : Run Unit := modify fun s => s.changeState path f

def fault (error : FieldError) (state : FieldState) : FieldState :=
  { state with valid := false, errors := state.errors ++ [error] }

/-- The first part of `_evaluate_field`: the errors go, and relevance is decided. -/
def markRelevant : Run Bool := do
  change path fun state => { state with errors := [] }
  let relevant ← Run.lift (fieldRelevant evaluate form ((← get).context session scope) cf)
  change path fun state => { state with relevant := relevant }
  return relevant

def calculateValue (relevant : Bool) : Run Unit := do
  match cf.node.calculate, relevant with
  | some calculate, true =>
    let value ← Run.lift (evaluate ((← get).context session scope) calculate)
    modify fun s => s.setValue path value
  | _, _ => return ()

/-- `state.value = self.values[path]`. -/
def takeValue : Run Value := do
  match (← get).values path with
  | none => throw (.raised "KeyError")
  | some value =>
    change path fun state => { state with value := value }
    return value

/-- `required` and `readOnly`, and the field is valid so far. -/
def markFlags : Run Bool := do
  let required ← Run.lift (flagOf evaluate ((← get).context session scope) cf.node.required)
  change path fun state => { state with required := required }
  let readOnly ← Run.lift (flagOf evaluate ((← get).context session scope) cf.node.readOnly)
  change path fun state => { state with readOnly := readOnly, valid := true }
  return required

def checkRequired (required : Bool) (value : Value) : Run Unit :=
  if required ∧ value.isNull then change path (fault .required) else return ()

def checkChoices (value : Value) : Run Unit := do
  if value.isNull then return ()
  if ← Run.lift (outsideChoices evaluate form session (← get) cf scope value) then change path (fault .choice)

def checkConstraint (value : Value) : Run Unit := do
  match cf.node.constraint, value.isNull with
  | some constraint, false =>
    let holds ← Run.lift (decideAt evaluate true ((← get).context session scope) constraint)
    if holds = false then
      change path (fault (.constraint cf.node.constraintMessage (cf.node.severity.getD "error")))
  | _, _ => return ()

def evaluateField : Run Unit := do
  if ((← get).states path).isNone then throw (.raised "KeyError")
  let relevant ← markRelevant evaluate form session cf path scope
  calculateValue evaluate session cf path scope relevant
  let value ← takeValue path
  let required ← markFlags evaluate session cf path scope
  if relevant then
    checkRequired path required value
    checkChoices evaluate form session cf path scope value
    checkConstraint evaluate session cf path scope value

def settleField (relevant : Bool) : Run Unit := do
  calculateValue evaluate session cf path scope relevant
  let value ← takeValue path
  let required ← markFlags evaluate session cf path scope
  if relevant then
    checkRequired path required value
    checkChoices evaluate form session cf path scope value
    checkConstraint evaluate session cf path scope value

theorem evaluateField_eq : evaluateField evaluate form session cf path scope = (do
    if ((← get).states path).isNone then throw (.raised "KeyError")
    settleField evaluate form session cf path scope (← markRelevant evaluate form session cf path scope)) := rfl

end Fields

/-- `max(0, int(wanted))`, and 0 of null. -/
def wanted : Value → Except Failure ℕ
  | .null => .ok 0
  | .integer n => .ok n.toNat
  | .bool value => .ok (if value then 1 else 0)
  | .decimal d => do return (← intOfFloat d).toNat
  | .text text =>
    match intOfText text.toList with
    | some n => .ok n.toNat
    | none => .error (.raised "ValueError")
  | .dateValue _ | .sequence _ | .geoPoint .. | .mediaRef .. => .error (.raised "TypeError")

/-- The digits of `str.isdigit` that `int` does not take. -/
def otherDigit (c : Char) : Bool :=
  let n := c.toNat
  n = 0xB2 || n = 0xB3 || n = 0xB9 || (0x1369 ≤ n && n ≤ 0x1371) || n = 0x19DA || n = 0x2070 ||
    (0x2074 ≤ n && n ≤ 0x2079) || (0x2080 ≤ n && n ≤ 0x2089) || (0x2460 ≤ n && n ≤ 0x2468) ||
    (0x2474 ≤ n && n ≤ 0x247C) || (0x2488 ≤ n && n ≤ 0x2490) || n = 0x24EA || (0x24F5 ≤ n && n ≤ 0x24FD) ||
    n = 0x24FF || (0x2776 ≤ n && n ≤ 0x277E) || (0x2780 ≤ n && n ≤ 0x2788) || (0x278A ≤ n && n ≤ 0x2792) ||
    (0x10A40 ≤ n && n ≤ 0x10A43) || (0x10E60 ≤ n && n ≤ 0x10E68) || (0x11052 ≤ n && n ≤ 0x1105A) ||
    (0x1F100 ≤ n && n ≤ 0x1F10A)

def canonical (instances : String → Option (List String)) (path : String) : Except Failure String :=
  match cutAt "[".toList path.toList, cutAt "].".toList path.toList with
  | some (rid, rest), some _ =>
    match cutAt "].".toList rest with
    | none => .error (.raised "ValueError")
    | some (index, suffix) =>
      match instances (String.ofList rid) with
      | none => .error (.compile ("unknown repeat: " ++ String.ofList rid))
      | some ordered =>
        if index ≠ [] ∧ index.all fun c => (digitOf c.toNat).isSome || otherDigit c then
          match intOfText index with
          | none => .error (.raised "ValueError")
          | some position =>
            match ordered[position.toNat]? with
            | none => .error (.compile ("no instance at " ++ String.ofList rid ++ "[" ++ toString position ++ "]"))
            | some iid => .ok (instancePath (String.ofList rid) iid (String.ofList suffix))
        else .ok path
  | _, _ => .ok path

def runtime (evaluate : Context → Expr → Except Failure Value) : Runtime where
  evaluate := evaluate
  count := wanted
  canonical := canonical
  evaluateField := evaluateField evaluate

section Restore

variable (form : CompiledForm)

/-- `_restore_instance`: the id is in the list before the order is checked, and has its fields after. -/
def restoreInstance (rid iid : String) : Run Unit := do
  if iid ∈ (← get).rows rid then return ()
  modify fun s => s.setRows rid (s.rows rid ++ [iid])
  assertCreationOrder rid
  modify (openCells form rid iid)
  match serialOf iid with
  | some serial => modify fun s => { s with serial := Nat.max s.serial serial }
  | none => return ()

def restoreRows (entry : String × List String) : Run (List String) := do
  if (form.repeat? entry.1).isNone then return entry.2.map fun iid => entry.1 ++ "[" ++ iid ++ "]"
  entry.2.forM (restoreInstance form entry.1)
  return []

def restoreAnswer (answer : String × Value) : Run (List String) := do
  match canonical (← get).instances answer.1 with
  | .error (.compile _) => return [answer.1]
  | .error failure => throw failure
  | .ok path =>
    if ((← get).values path).isNone then return [answer.1]
    modify fun s => s.setValue path answer.2
    return []

def restore (evaluate : Context → Expr → Except Failure Value) (session : Session)
    (instances : List (String × List String)) (answers : List (String × Value)) : Run (List String) := do
  let rows ← instances.mapM (restoreRows form)
  let unplaced ← answers.mapM restoreAnswer
  recalculate (runtime evaluate) form session
  return (rows ++ unplaced).flatten

end Restore

end Reference

end DataCollectionLab.Form
