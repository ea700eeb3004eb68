import DataCollectionLab.Form.DeviceFunctions
import DataCollectionLab.Form.RepeatRuns
import DataCollectionLab.Lib.Mirrors

/-!
The device's engine's own part of a form instance: how a reference finds its value, how many rows a count asks for,
and the evaluation of a field.
-/

namespace DataCollectionLab.Form

open Lib

namespace Device

/-- The rest of the engine: the functions of its table, which read the clock and the datasets, and what the platform
writes for a double and for a value of several parts. -/
structure Platform where
  functions : String → String → Option (String → String → Value → List (String → Option Value)) → String → List Value →
    Except Failure Value
  doubleText : Binary64 → String
  partsText : Value → String

section References

variable (ctx : Context)

/-- `members[.].age` and `members[0].age`. -/
def resolveIndexed (path rid suffix : String) (index : List Char) : Except Failure Value :=
  if index = ['.'] then
    match ctx.scope with
    | some (repeatId, iid) =>
      if repeatId = rid then .ok (Reference.valueIn ctx rid iid suffix)
      else .error (.compile ("[.] reference outside its repeat: " ++ path))
    | none => .error (.compile ("[.] reference outside its repeat: " ++ path))
  else
    match Evaluator.toIntOrNull (Evaluator.utf16 index) with
    | none => .error (.compile ("malformed positional reference: " ++ path))
    | some position =>
      if position < 0 then .ok .null
      else
        match ((ctx.instances rid).getD [])[position.toNat]? with
        | none => .ok .null
        | some iid => .ok (Reference.valueIn ctx rid iid suffix)

/-- `substringBefore` and `substringAfter` of the mark that closes an index: both are the whole text without one. -/
def splitIndex (rest : List Char) : List Char × List Char := (cutAt "].".toList rest).getD (rest, rest)

def resolve (path : String) : Except Failure Value :=
  match rowPath path with
  | some column =>
    match ctx.row with
    | none => .error (.compile ("$row reference outside a choice filter: " ++ path))
    | some row => .ok ((row column).getD .null)
  | none =>
    if metadataPrefix.isPrefixOf path.toList then
      .ok ((ctx.metadata (String.ofList (path.toList.drop metadataPrefix.length))).getD .null)
    else
      match cutAt "[].".toList path.toList with
      | some (rid, suffix) =>
        .ok (.sequence (((ctx.instances (String.ofList rid)).getD []).map fun iid =>
          Reference.valueIn ctx (String.ofList rid) iid (String.ofList suffix)))
      | none =>
        match cutAt "[".toList path.toList, cutAt "].".toList path.toList with
        | some (rid, rest), some _ =>
          resolveIndexed ctx path (String.ofList rid) (String.ofList (splitIndex rest).2) (splitIndex rest).1
        | _, _ => Reference.resolveBare ctx path

end References

def canonical (instances : String → Option (List String)) (path : String) : Except Failure String :=
  match cutAt "[".toList path.toList, cutAt "].".toList path.toList with
  | some (rid, rest), some _ =>
    match instances (String.ofList rid) with
    | none => .error (.compile ("unknown repeat: " ++ String.ofList rid))
    | some ordered =>
      let units := Evaluator.utf16 (splitIndex rest).1
      if units ≠ [] ∧ units.all fun unit => (Reference.digitOf unit).isSome then
        match Evaluator.toIntOrNull units with
        | none => .error (.raised "NumberFormatException")
        | some position =>
          match ordered[position.toNat]? with
          | none => .error (.compile ("no instance at " ++ String.ofList rid ++ "[" ++ toString position ++ "]"))
          | some iid => .ok (instancePath (String.ofList rid) iid (String.ofList (splitIndex rest).2))
      else .ok path
  | _, _ => .ok path

/-- `toInt` of a double: cut to the range. -/
def doubleToInt (d : Binary64) : ℤ := Evaluator.coerceIn (-2 ^ 31) (2 ^ 31 - 1) (Evaluator.toLong d)

/-- `maxOf(0, ...)` of a count. -/
def wanted : Value → Except Failure ℕ
  | .null => .ok 0
  | .integer n => .ok (Evaluator.toInt n).toNat
  | .decimal d => .ok (doubleToInt d).toNat
  | .text _ | .bool _ | .dateValue _ | .sequence _ | .geoPoint .. | .mediaRef .. =>
    .error (.raised "EvaluationException")

section Choices

variable (platform : Platform) (evaluate : Context → Expr → Except Failure Value) (form : CompiledForm) (session : Session)

def formValueAsText (value : Value) : String :=
  if value.isNull then "" else (Evaluator.castText platform.doubleText value).getD (platform.partsText value)

/-- `inlineValuesOutsideChoices` is not empty. -/
def inlineOutside (choices : Option ChoiceList) (value : Value) : Bool :=
  match choices with
  | some (.inline permitted) =>
    match value with
    | .sequence items => (items.filterMap Evaluator.textOrNull).any (· ∉ permitted)
    | .text value => value ∉ permitted
    | _ => false
  | _ => false

/-- `valuesOutsideChoices` is not empty. -/
def outsideChoices (s : FormInstance) (cf : CompiledField) (scope : Option (String × String)) (value : Value) :
    Except Failure Bool :=
  match cf.rowsQuery, cf.choiceQuery with
  | some query, _ =>
    someOutside (fun one => offersInstance evaluate form session s query scope (formValueAsText platform one))
      (answersOf cf.node.dataType value)
  | none, some query => someOutside (offersRow evaluate session s query scope) (answersOf cf.node.dataType value)
  | none, none => .ok (inlineOutside cf.node.choices value)

end Choices

section Fields

variable (platform : Platform) (evaluate : Context → Expr → Except Failure Value) (form : CompiledForm)
  (session : Session) (cf : CompiledField) (path : String) (scope : Option (String × String))

def change (f : FieldState → FieldState) : Run Unit := modify fun s => s.changeState path f

def calculateValue (relevant : Bool) : Run Unit := do
  match cf.node.calculate, relevant with
  | some calculate, true =>
    let value ← Run.lift (evaluate ((← get).context session scope) calculate)
    modify fun s => s.setValue path value
  | _, _ => return ()

/-- `values.getValue(path)`. -/
def takeValue : Run Value := do
  match (← get).values path with
  | none => throw (.raised "NoSuchElementException")
  | some value => return value

def fault (found : Bool) (error : FieldError) : Run (List FieldError) := do
  if found then
    change path fun state => { state with valid := false }
    return [error]
  else return []

def checkChoices (value : Value) : Run (List FieldError) := do
  if value.isNull then return []
  fault path (← Run.lift (outsideChoices platform evaluate form session (← get) cf scope value)) .choice

def checkConstraint (value : Value) : Run (List FieldError) := do
  match cf.node.constraint, value.isNull with
  | some constraint, false =>
    let holds ← Run.lift (decideAt evaluate true ((← get).context session scope) constraint)
    fault path (!holds) (.constraint cf.node.constraintMessage (cf.node.severity.getD "error"))
  | _, _ => return []

def checkField (required : Bool) (value : Value) : Run (List FieldError) := do
  let missing ← fault path (required && value.isNull) .required
  let outside ← checkChoices platform evaluate form session cf path scope value
  let broken ← checkConstraint evaluate session cf path scope value
  return missing ++ outside ++ broken

def errorsIf (relevant required : Bool) (value : Value) : Run (List FieldError) :=
  if relevant then checkField platform evaluate form session cf path scope required value else pure []

def judgeField : Run Unit := do
  let relevant ← Run.lift (fieldRelevant evaluate form ((← get).context session scope) cf)
  change path fun state => { state with relevant := relevant }
  calculateValue evaluate session cf path scope relevant
  let value ← takeValue path
  change path fun state => { state with value := value }
  let required ← Run.lift (flagOf evaluate ((← get).context session scope) cf.node.required)
  change path fun state => { state with required := required }
  let readOnly ← Run.lift (flagOf evaluate ((← get).context session scope) cf.node.readOnly)
  change path fun state => { state with readOnly := readOnly, valid := true }
  let errors ← errorsIf platform evaluate form session cf path scope relevant required value
  change path fun state => { state with errors := errors }

def evaluateField : Run Unit := do
  if ((← get).states path).isNone then throw (.raised "NoSuchElementException")
  judgeField platform evaluate form session cf path scope

end Fields

section Outcome

structure Outcome where
  relevant : Bool
  value : Value
  required : Bool
  readOnly : Bool
  errors : List FieldError

def Outcome.settle (path : String) (outcome : Outcome) (s : FormInstance) : FormInstance :=
  (s.setValue path outcome.value).changeState path fun state => { state with
    relevant := outcome.relevant
    value := outcome.value
    required := outcome.required
    readOnly := outcome.readOnly
    valid := outcome.errors.isEmpty
    errors := outcome.errors }

def faults (found : Bool) (error : FieldError) : List FieldError := if found then [error] else []

variable (platform : Platform) (evaluate : Context → Expr → Except Failure Value) (form : CompiledForm)
  (session : Session) (cf : CompiledField) (path : String) (scope : Option (String × String))

def fieldValue (s : FormInstance) (relevant : Bool) : Except Failure Value :=
  match cf.node.calculate, relevant with
  | some calculate, true => evaluate (s.context session scope) calculate
  | _, _ => (s.values path).elim (.error (.raised "NoSuchElementException")) .ok

def choiceBroken (s : FormInstance) (value : Value) : Except Failure Bool :=
  if value.isNull then .ok false else outsideChoices platform evaluate form session s cf scope value

def constraintBroken (s : FormInstance) (value : Value) : Except Failure Bool :=
  match cf.node.constraint, value.isNull with
  | some constraint, false => (decideAt evaluate true (s.context session scope) constraint).map (!·)
  | _, _ => .ok false

def fieldErrors (s : FormInstance) (required : Bool) (value : Value) : Except Failure (List FieldError) := do
  let outside ← choiceBroken platform evaluate form session cf scope s value
  let broken ← constraintBroken evaluate session cf scope s value
  return faults (required && value.isNull) .required ++ faults outside .choice ++
    faults broken (.constraint cf.node.constraintMessage (cf.node.severity.getD "error"))

def outcomeErrors (s : FormInstance) (relevant required : Bool) (value : Value) : Except Failure (List FieldError) :=
  if relevant then fieldErrors platform evaluate form session cf scope s required value else .ok []

def outcome (s : FormInstance) : Except Failure Outcome := do
  let relevant ← fieldRelevant evaluate form (s.context session scope) cf
  let value ← fieldValue evaluate session cf path scope s relevant
  let s := s.setValue path value
  let required ← flagOf evaluate (s.context session scope) cf.node.required
  let readOnly ← flagOf evaluate (s.context session scope) cf.node.readOnly
  let errors ← outcomeErrors platform evaluate form session cf scope s relevant required value
  return ⟨relevant, value, required, readOnly, errors⟩

theorem lift_ok_iff {α : Type} {x : Except Failure α} {s s' : FormInstance} {a : α} :
    Run.lift x s = .ok a s' ↔ x = .ok a ∧ s' = s := by
  cases x with
  | ok b =>
    show EStateM.Result.ok b s = _ ↔ _
    rw [EStateM.Result.ok.injEq, Except.ok.injEq]
    exact and_congr_right fun _ => eq_comm
  | error e =>
    show EStateM.Result.error e s = _ ↔ _
    simp

theorem change_ok_iff {f : FieldState → FieldState} {s s' : FormInstance} {u : Unit} :
    change path f s = .ok u s' ↔ s' = s.changeState path f := by
  show EStateM.Result.ok () (s.changeState path f) = _ ↔ _
  rw [EStateM.Result.ok.injEq]
  exact ⟨fun same => same.2.symm, fun same => ⟨rfl, same.symm⟩⟩

theorem context_changeState (s : FormInstance) (path : String) (f : FieldState → FieldState) (session : Session)
    (scope : Option (String × String)) : (s.changeState path f).context session scope = s.context session scope := rfl

theorem setValue_changeState (s : FormInstance) (path other : String) (f : FieldState → FieldState) (value : Value) :
    (s.changeState path f).setValue other value = (s.setValue other value).changeState path f := rfl

theorem changeState_changeState (s : FormInstance) (path : String) (f g : FieldState → FieldState) :
    (s.changeState path f).changeState path g = s.changeState path fun state => g (f state) := by
  unfold FormInstance.changeState
  congr 1
  funext other
  by_cases same : other = path
  · rw [if_pos same, if_pos same]
    dsimp only
    rw [if_pos rfl, Option.map_map]
    rfl
  · rw [if_neg same, if_neg same]
    exact if_neg same

theorem changeState_same (s : FormInstance) (path : String) {f : FieldState → FieldState}
    (same : ∀ state, f state = state) : s.changeState path f = s := by
  unfold FormInstance.changeState
  congr 1
  funext other
  split
  · rename_i here
    rw [here, funext same, Option.map_id']
  · rfl

theorem fault_ok_iff {found : Bool} {error : FieldError} {s s' : FormInstance} {errors : List FieldError} :
    fault path found error s = .ok errors s' ↔ errors = faults found error ∧
      s' = s.changeState path fun state => { state with valid := state.valid && !found } := by
  cases found with
  | true =>
    have turned : (s.changeState path fun state => { state with valid := state.valid && !true }) =
        s.changeState path fun state => { state with valid := false } := by simp
    rw [turned]
    show EStateM.Result.ok [error] (s.changeState path fun state => { state with valid := false }) = _ ↔ _
    rw [EStateM.Result.ok.injEq]
    exact ⟨fun same => ⟨same.1.symm, same.2.symm⟩, fun same => ⟨same.1.symm, same.2.symm⟩⟩
  | false =>
    rw [changeState_same s path fun state => by simp]
    show EStateM.Result.ok [] s = _ ↔ _
    rw [EStateM.Result.ok.injEq]
    exact ⟨fun same => ⟨same.1.symm, same.2.symm⟩, fun same => ⟨same.1.symm, same.2.symm⟩⟩

theorem checkChoices_ok_iff {s s' : FormInstance} {value : Value} {errors : List FieldError} :
    checkChoices platform evaluate form session cf path scope value s = .ok errors s' ↔
      ∃ outside, choiceBroken platform evaluate form session cf scope s value = .ok outside ∧
        errors = faults outside .choice ∧
        s' = s.changeState path fun state => { state with valid := state.valid && !outside } := by
  unfold checkChoices choiceBroken
  cases null : value.isNull with
  | true =>
    simp only [if_true]
    have quiet := @fault_ok_iff path false .choice s s' errors
    constructor
    · intro ran
      exact ⟨false, rfl, quiet.mp ran⟩
    · rintro ⟨outside, same, rest⟩
      obtain rfl := Except.ok.inj same
      exact quiet.mpr rest
  | false =>
    simp only [Bool.false_eq_true, if_false]
    constructor
    · intro ran
      obtain ⟨seen, between, begun, rest⟩ := run_bind_ok_iff.mp ran
      obtain ⟨rfl, rfl⟩ := EStateM.Result.ok.inj begun
      obtain ⟨outside, between, lifted, ended⟩ := run_bind_ok_iff.mp rest
      obtain ⟨read, rfl⟩ := lift_ok_iff.mp lifted
      exact ⟨outside, read, (fault_ok_iff path).mp ended⟩
    · rintro ⟨outside, read, rest⟩
      exact run_bind_ok_iff.mpr ⟨s, s, rfl, run_bind_ok_iff.mpr
        ⟨outside, s, lift_ok_iff.mpr ⟨read, rfl⟩, (fault_ok_iff path).mpr rest⟩⟩

theorem checkConstraint_ok_iff {s s' : FormInstance} {value : Value} {errors : List FieldError} :
    checkConstraint evaluate session cf path scope value s = .ok errors s' ↔
      ∃ broken, constraintBroken evaluate session cf scope s value = .ok broken ∧
        errors = faults broken (.constraint cf.node.constraintMessage (cf.node.severity.getD "error")) ∧
        s' = s.changeState path fun state => { state with valid := state.valid && !broken } := by
  unfold checkConstraint constraintBroken
  have quiet := @fault_ok_iff path false (.constraint cf.node.constraintMessage (cf.node.severity.getD "error")) s s' errors
  have still : (∃ broken, (.ok false : Except Failure Bool) = .ok broken ∧
      errors = faults broken (.constraint cf.node.constraintMessage (cf.node.severity.getD "error")) ∧
      s' = s.changeState path fun state => { state with valid := state.valid && !broken }) ↔
      (pure [] : Run (List FieldError)) s = .ok errors s' := by
    constructor
    · rintro ⟨broken, same, rest⟩
      obtain rfl := Except.ok.inj same
      exact quiet.mpr rest
    · intro ran
      exact ⟨false, rfl, quiet.mp ran⟩
  cases given : cf.node.constraint with
  | none => exact still.symm
  | some constraint =>
    cases null : value.isNull with
    | true => exact still.symm
    | false =>
      dsimp only
      constructor
      · intro ran
        obtain ⟨seen, between, begun, rest⟩ := run_bind_ok_iff.mp ran
        obtain ⟨rfl, rfl⟩ := EStateM.Result.ok.inj begun
        obtain ⟨holds, between, lifted, ended⟩ := run_bind_ok_iff.mp rest
        obtain ⟨read, rfl⟩ := lift_ok_iff.mp lifted
        exact ⟨!holds, by rw [read]; rfl, (fault_ok_iff path).mp ended⟩
      · rintro ⟨broken, found, rest⟩
        obtain ⟨holds, read, rfl⟩ := map_ok_iff.mp found
        exact run_bind_ok_iff.mpr ⟨s, s, rfl, run_bind_ok_iff.mpr
          ⟨holds, s, lift_ok_iff.mpr ⟨read, rfl⟩, (fault_ok_iff path).mpr rest⟩⟩

theorem checkField_ok_iff {s s' : FormInstance} {required : Bool} {value : Value} {errors : List FieldError} :
    checkField platform evaluate form session cf path scope required value s = .ok errors s' ↔
      fieldErrors platform evaluate form session cf scope s required value = .ok errors ∧
        s' = s.changeState path fun state => { state with valid := state.valid && errors.isEmpty } := by
  have empty (missing outside broken : Bool) (last : FieldError) :
      (faults missing .required ++ faults outside .choice ++ faults broken last).isEmpty =
        (!missing && (!outside && !broken)) := by
    cases missing <;> cases outside <;> cases broken <;> rfl
  constructor
  · intro ran
    obtain ⟨missing, s₁, first, ran⟩ := run_bind_ok_iff.mp ran
    obtain ⟨rfl, rfl⟩ := (fault_ok_iff path).mp first
    obtain ⟨outside, s₂, second, ran⟩ := run_bind_ok_iff.mp ran
    obtain ⟨found, read, rfl, rfl⟩ := (checkChoices_ok_iff platform evaluate form session cf path scope).mp second
    obtain ⟨broken, s₃, third, ran⟩ := run_bind_ok_iff.mp ran
    obtain ⟨failed, read', rfl, rfl⟩ := (checkConstraint_ok_iff evaluate session cf path scope).mp third
    obtain ⟨rfl, rfl⟩ := EStateM.Result.ok.inj ran
    refine ⟨bind_ok_iff.mpr ⟨found, read, bind_ok_iff.mpr ⟨failed, read', rfl⟩⟩, ?_⟩
    rw [changeState_changeState, changeState_changeState, empty]
    simp only [Bool.and_assoc]
  · rintro ⟨checked, rfl⟩
    obtain ⟨found, read, checked⟩ := bind_ok_iff.mp checked
    obtain ⟨failed, read', checked⟩ := bind_ok_iff.mp checked
    obtain rfl := Except.ok.inj checked
    refine run_bind_ok_iff.mpr ⟨_, _, (fault_ok_iff path).mpr ⟨rfl, rfl⟩, run_bind_ok_iff.mpr ⟨_, _,
      (checkChoices_ok_iff platform evaluate form session cf path scope).mpr ⟨found, read, rfl, rfl⟩,
      run_bind_ok_iff.mpr ⟨_, _, (checkConstraint_ok_iff evaluate session cf path scope).mpr ⟨failed, read', rfl, rfl⟩, ?_⟩⟩⟩
    rw [changeState_changeState, changeState_changeState, empty]
    simp only [Bool.and_assoc]
    rfl

theorem value_ok_iff {s s' : FormInstance} {relevant : Bool} {value : Value} :
    (∃ between, calculateValue evaluate session cf path scope relevant s = .ok () between ∧
      takeValue path between = .ok value s') ↔
      fieldValue evaluate session cf path scope s relevant = .ok value ∧ s' = s.setValue path value := by
  have taken {s : FormInstance} : takeValue path s = .ok value s' ↔ s.values path = some value ∧ s' = s := by
    have steps : takeValue path s = match s.values path with
        | none => .error (.raised "NoSuchElementException") s
        | some value => .ok value s := by
      rw [takeValue, apply_get_bind]
      cases s.values path <;> rfl
    rw [steps]
    cases s.values path with
    | none => simp
    | some held =>
      simp only [EStateM.Result.ok.injEq, Option.some.injEq]
      exact and_congr_right fun _ => eq_comm
  have kept (held : Option Value) (same : s.values path = held) :
      (held.elim (.error (.raised "NoSuchElementException")) .ok : Except Failure Value) = .ok value ∧
        s' = s.setValue path value ↔ s.values path = some value ∧ s' = s := by
    rw [same]
    cases held with
    | none => simp
    | some other =>
      rw [Option.elim_some, Except.ok.injEq, Option.some.injEq]
      refine and_congr_right fun here => ?_
      rw [setValue_same (same.trans (congrArg some here))]
  have still : (∃ between, (pure () : Run Unit) s = .ok () between ∧ takeValue path between = .ok value s') ↔
      ((s.values path).elim (.error (.raised "NoSuchElementException")) .ok : Except Failure Value) = .ok value ∧
        s' = s.setValue path value := by
    rw [kept _ rfl]
    constructor
    · rintro ⟨between, ran, took⟩
      obtain ⟨-, rfl⟩ := EStateM.Result.ok.inj ran
      exact taken.mp took
    · exact fun held => ⟨s, rfl, taken.mpr held⟩
  unfold calculateValue fieldValue
  cases given : cf.node.calculate with
  | none => exact still
  | some calculate =>
    cases relevant with
    | false => exact still
    | true =>
      dsimp only
      constructor
      · rintro ⟨between, ran, took⟩
        obtain ⟨seen, s₁, begun, rest⟩ := run_bind_ok_iff.mp ran
        obtain ⟨rfl, rfl⟩ := EStateM.Result.ok.inj begun
        obtain ⟨found, s₂, lifted, ended⟩ := run_bind_ok_iff.mp rest
        obtain ⟨read, rfl⟩ := lift_ok_iff.mp lifted
        obtain ⟨-, rfl⟩ := EStateM.Result.ok.inj ended
        obtain ⟨held, rfl⟩ := taken.mp took
        have same : found = value := Option.some.inj ((if_pos rfl).symm.trans held)
        exact ⟨same ▸ read, by rw [same]⟩
      · rintro ⟨read, rfl⟩
        exact ⟨s.setValue path value, run_bind_ok_iff.mpr ⟨s, s, rfl, run_bind_ok_iff.mpr
          ⟨value, s, lift_ok_iff.mpr ⟨read, rfl⟩, rfl⟩⟩, taken.mpr ⟨if_pos rfl, rfl⟩⟩

theorem judgeField_ok_iff {s s' : FormInstance} :
    judgeField platform evaluate form session cf path scope s = .ok () s' ↔
      ∃ o, outcome platform evaluate form session cf path scope s = .ok o ∧ s' = o.settle path s := by
  have settled (o : Outcome) : (((((((s.changeState path fun state => { state with relevant := o.relevant }).setValue
        path o.value).changeState path fun state => { state with value := o.value }).changeState path
        fun state => { state with required := o.required }).changeState path
        fun state => { state with readOnly := o.readOnly, valid := true }).changeState path
        fun state => { state with valid := state.valid && o.errors.isEmpty }).changeState path
        fun state => { state with errors := o.errors }) = o.settle path s := by
    show ((((((s.setValue path o.value).changeState path fun state => { state with relevant := o.relevant }).changeState
        path fun state => { state with value := o.value }).changeState path
        fun state => { state with required := o.required }).changeState path
        fun state => { state with readOnly := o.readOnly, valid := true }).changeState path
        fun state => { state with valid := state.valid && o.errors.isEmpty }).changeState path
        (fun state => { state with errors := o.errors }) = _
    simp only [changeState_changeState, Bool.true_and]
    rfl
  have ends {s₁ s₂ : FormInstance} {relevant required : Bool} {value : Value} {errors : List FieldError} :
      errorsIf platform evaluate form session cf path scope relevant required value s₁ = .ok errors s₂ ↔
      outcomeErrors platform evaluate form session cf scope s₁ relevant required value = .ok errors ∧
        s₂ = s₁.changeState path fun state => { state with valid := state.valid && errors.isEmpty } := by
    cases relevant with
    | true => exact checkField_ok_iff platform evaluate form session cf path scope
    | false =>
      constructor
      · intro ran
        obtain ⟨rfl, rfl⟩ := EStateM.Result.ok.inj ran
        exact ⟨rfl, (changeState_same _ path fun state => by simp).symm⟩
      · rintro ⟨same, rfl⟩
        obtain rfl := Except.ok.inj same
        rw [changeState_same _ path fun state => by simp]
        rfl
  have unread (s : FormInstance) (f : FieldState → FieldState) (relevant required : Bool) (value : Value) :
      outcomeErrors platform evaluate form session cf scope (s.changeState path f) relevant required value =
        outcomeErrors platform evaluate form session cf scope s relevant required value := rfl
  constructor
  · intro ran
    obtain ⟨_, _, begun, ran₁⟩ := run_bind_ok_iff.mp ran
    obtain ⟨rfl, rfl⟩ := EStateM.Result.ok.inj begun
    obtain ⟨relevant, _, marked, ran₂⟩ := run_bind_ok_iff.mp ran₁
    obtain ⟨found, rfl⟩ := lift_ok_iff.mp marked
    obtain ⟨_, _, written, ran₃⟩ := run_bind_ok_iff.mp ran₂
    obtain rfl := (change_ok_iff path).mp written
    obtain ⟨_, between, calculated, ran₄⟩ := run_bind_ok_iff.mp ran₃
    obtain ⟨value, _, took, ran₅⟩ := run_bind_ok_iff.mp ran₄
    obtain ⟨valued, rfl⟩ := (value_ok_iff evaluate session cf path scope).mp ⟨between, calculated, took⟩
    obtain ⟨_, _, kept, ran₆⟩ := run_bind_ok_iff.mp ran₅
    obtain rfl := (change_ok_iff path).mp kept
    obtain ⟨_, _, again, ran₇⟩ := run_bind_ok_iff.mp ran₆
    obtain ⟨rfl, rfl⟩ := EStateM.Result.ok.inj again
    obtain ⟨required, _, asked, ran₈⟩ := run_bind_ok_iff.mp ran₇
    obtain ⟨needed, rfl⟩ := lift_ok_iff.mp asked
    obtain ⟨_, _, flagged, ran₉⟩ := run_bind_ok_iff.mp ran₈
    obtain rfl := (change_ok_iff path).mp flagged
    obtain ⟨_, _, once, ran₁₀⟩ := run_bind_ok_iff.mp ran₉
    obtain ⟨rfl, rfl⟩ := EStateM.Result.ok.inj once
    obtain ⟨readOnly, _, locked, ran₁₁⟩ := run_bind_ok_iff.mp ran₁₀
    obtain ⟨fixed, rfl⟩ := lift_ok_iff.mp locked
    obtain ⟨_, _, cleared, ran₁₂⟩ := run_bind_ok_iff.mp ran₁₁
    obtain rfl := (change_ok_iff path).mp cleared
    obtain ⟨errors, _, checked, last⟩ := run_bind_ok_iff.mp ran₁₂
    obtain ⟨judged, rfl⟩ := ends.mp checked
    obtain rfl := (change_ok_iff path).mp last
    rw [context_changeState, setValue_changeState, context_changeState] at needed
    rw [context_changeState, context_changeState, setValue_changeState, context_changeState] at fixed
    rw [unread, unread, unread, setValue_changeState, unread] at judged
    refine ⟨⟨relevant, value, required, readOnly, errors⟩, ?_, settled ⟨relevant, value, required, readOnly, errors⟩⟩
    exact bind_ok_iff.mpr ⟨relevant, found, bind_ok_iff.mpr ⟨value, valued, bind_ok_iff.mpr ⟨required, needed,
      bind_ok_iff.mpr ⟨readOnly, fixed, bind_ok_iff.mpr ⟨errors, judged, rfl⟩⟩⟩⟩⟩
  · rintro ⟨o, came, rfl⟩
    obtain ⟨relevant, found, came₁⟩ := bind_ok_iff.mp came
    obtain ⟨value, valued, came₂⟩ := bind_ok_iff.mp came₁
    obtain ⟨required, needed, came₃⟩ := bind_ok_iff.mp came₂
    obtain ⟨readOnly, fixed, came₄⟩ := bind_ok_iff.mp came₃
    obtain ⟨errors, judged, same⟩ := bind_ok_iff.mp came₄
    obtain rfl := Except.ok.inj same
    obtain ⟨between, calculated, took⟩ := (value_ok_iff evaluate session cf path scope
      (s := s.changeState path fun state => { state with relevant := relevant })).mpr ⟨valued, rfl⟩
    refine run_bind_ok_iff.mpr ⟨s, s, rfl, ?_⟩
    refine run_bind_ok_iff.mpr ⟨relevant, s, lift_ok_iff.mpr ⟨found, rfl⟩, ?_⟩
    refine run_bind_ok_iff.mpr ⟨(), _, (change_ok_iff path).mpr rfl, ?_⟩
    refine run_bind_ok_iff.mpr ⟨(), between, calculated, ?_⟩
    refine run_bind_ok_iff.mpr ⟨value, _, took, ?_⟩
    refine run_bind_ok_iff.mpr ⟨(), _, (change_ok_iff path).mpr rfl, ?_⟩
    refine run_bind_ok_iff.mpr ⟨_, _, rfl, ?_⟩
    refine run_bind_ok_iff.mpr ⟨required, _, lift_ok_iff.mpr ⟨?_, rfl⟩, ?_⟩
    · rw [context_changeState, setValue_changeState, context_changeState]
      exact needed
    refine run_bind_ok_iff.mpr ⟨(), _, (change_ok_iff path).mpr rfl, ?_⟩
    refine run_bind_ok_iff.mpr ⟨_, _, rfl, ?_⟩
    refine run_bind_ok_iff.mpr ⟨readOnly, _, lift_ok_iff.mpr ⟨?_, rfl⟩, ?_⟩
    · rw [context_changeState, context_changeState, setValue_changeState, context_changeState]
      exact fixed
    refine run_bind_ok_iff.mpr ⟨(), _, (change_ok_iff path).mpr rfl, ?_⟩
    refine run_bind_ok_iff.mpr ⟨errors, _, ends.mpr ⟨?_, rfl⟩, (change_ok_iff path).mpr ?_⟩
    · rw [unread, unread, unread, setValue_changeState, unread]
      exact judged
    exact (settled ⟨relevant, value, required, readOnly, errors⟩).symm

theorem evaluateField_ok_iff {s s' : FormInstance} :
    evaluateField platform evaluate form session cf path scope s = .ok () s' ↔ (s.states path).isSome ∧
      ∃ o, outcome platform evaluate form session cf path scope s = .ok o ∧ s' = o.settle path s := by
  rw [← judgeField_ok_iff platform evaluate form session cf path scope]
  have steps : evaluateField platform evaluate form session cf path scope s =
      (if (s.states path).isNone then throw (.raised "NoSuchElementException")
        else judgeField platform evaluate form session cf path scope : Run Unit) s := by
    rw [evaluateField, apply_get_bind]
    split <;> rfl
  rw [steps]
  cases s.states path with
  | none =>
    refine ⟨fun ran => ?_, fun both => absurd both.1 Bool.false_ne_true⟩
    cases ran
  | some state => exact ⟨fun ran => ⟨rfl, ran⟩, fun both => both.2⟩

theorem outcome_spec {s : FormInstance} {o : Outcome}
    (came : outcome platform evaluate form session cf path scope s = .ok o) :
    fieldRelevant evaluate form (s.context session scope) cf = .ok o.relevant ∧
      (cf.node.calculate = none ∨ o.relevant = false → s.values path = some o.value) := by
  obtain ⟨relevant, found, came₁⟩ := bind_ok_iff.mp came
  obtain ⟨value, valued, came₂⟩ := bind_ok_iff.mp came₁
  obtain ⟨required, -, came₃⟩ := bind_ok_iff.mp came₂
  obtain ⟨readOnly, -, came₄⟩ := bind_ok_iff.mp came₃
  obtain ⟨errors, -, same⟩ := bind_ok_iff.mp came₄
  obtain rfl := Except.ok.inj same
  refine ⟨found, fun idle => ?_⟩
  have held : ((s.values path).elim (.error (.raised "NoSuchElementException")) .ok : Except Failure Value) = .ok value := by
    unfold fieldValue at valued
    rcases idle with uncalculated | irrelevant
    · rw [uncalculated] at valued
      exact valued
    · dsimp only at irrelevant
      rw [irrelevant] at valued
      cases given : cf.node.calculate with
      | none =>
        rw [given] at valued
        exact valued
      | some calculate =>
        rw [given] at valued
        exact valued
  cases kept : s.values path with
  | none =>
    rw [kept] at held
    cases held
  | some other =>
    rw [kept] at held
    exact congrArg some (Except.ok.inj held)

end Outcome

/-- `Evaluator.evaluate`, with the references and the functions of the device. -/
def evaluate (platform : Platform) : Context → Expr → Except Failure Value :=
  Evaluator.evaluate (fun ctx => platform.functions ctx.today ctx.now ctx.datasets) resolve

def runtime (platform : Platform) : Runtime where
  evaluate := evaluate platform
  count := wanted
  canonical := canonical
  evaluateField := evaluateField platform (evaluate platform)

section Pass

variable (platform : Platform) {form : CompiledForm} {session : Session} {P : FormInstance → Prop}

theorem settle_keeps (framed : Framed P) {path : String} (o : Outcome) {s : FormInstance} (holds : P s)
    (has : (s.states path).isSome) : P (o.settle path s) :=
  framed.state _ _ _ (framed.value _ _ _ holds has)

theorem judgeField_keeps (framed : Framed P) {cf : CompiledField} {path : String} {scope : Option (String × String)}
    (has : ∀ s, P s → (s.states path).isSome) :
    Keeps P (judgeField platform (evaluate platform) form session cf path scope) := by
  have changed (f : FieldState → FieldState) : Keeps P (change path f) := fun s holds => framed.state s path f holds
  have read {α β : Type} {x : FormInstance → Except Failure α} {f : α → Run β} (later : ∀ a, Keeps P (f a)) :
      Keeps P ((get : Run FormInstance) >>= fun s => Run.lift (x s) >>= f) :=
    read_step (fun _ holds _ _ => holds) later
  have faulted (found : Bool) (error : FieldError) : Keeps P (fault path found error) := by
    unfold fault
    split
    · exact Triple.bind (changed _) fun _ => pure_triple _
    · exact pure_triple _
  have calculated (relevant : Bool) : Keeps P (calculateValue (evaluate platform) session cf path scope relevant) := by
    unfold calculateValue
    split
    · exact read fun value s holds => framed.value s path value holds (has s holds)
    · exact pure_triple _
  have taken : Keeps P (takeValue path) := by
    refine Triple.get_bind fun s holds => ?_
    cases s.values path with
    | none => exact Triple.of_error rfl holds
    | some value => exact Triple.of_ok rfl holds
  have chosen (value : Value) : Keeps P (checkChoices platform (evaluate platform) form session cf path scope value) := by
    unfold checkChoices
    split
    · exact pure_triple _
    · exact read fun outside => faulted outside _
  have constrained (value : Value) : Keeps P (checkConstraint (evaluate platform) session cf path scope value) := by
    unfold checkConstraint
    split
    · exact read fun holds => faulted (!holds) _
    · exact pure_triple _
  have checked (relevant required : Bool) (value : Value) :
      Keeps P (errorsIf platform (evaluate platform) form session cf path scope relevant required value) := by
    unfold errorsIf
    split
    · exact Triple.bind (faulted _ _) fun _ => Triple.bind (chosen value) fun _ => Triple.bind (constrained value) fun _ =>
        pure_triple _
    · exact pure_triple _
  exact read fun relevant => Triple.bind (changed _) fun _ => Triple.bind (calculated relevant) fun _ =>
    Triple.bind taken fun value => Triple.bind (changed _) fun _ => read fun required => Triple.bind (changed _) fun _ =>
      read fun readOnly => Triple.bind (changed _) fun _ => Triple.bind (checked relevant required value) fun _ => changed _

theorem evaluateFields_keeps (framed : Framed P) (fid : String) :
    Keeps P (evaluateFields (runtime platform) form session fid) := by
  have field (cf : CompiledField) (path : String) (scope : Option (String × String)) :
      Keeps P (evaluateField platform (evaluate platform) form session cf path scope) := by
    refine Triple.get_bind fun s holds => ?_
    cases stated : s.states path with
    | none => exact Triple.of_error rfl holds
    | some state =>
      have framed' : Framed fun s => P s ∧ (s.states path).isSome :=
        ⟨fun s' other f kept => ⟨framed.state _ _ _ kept.1, changeState_isSome.trans kept.2⟩,
          fun s' other value kept has => ⟨framed.value _ _ _ kept.1 has, kept.2⟩⟩
      have kept : Keeps _ (judgeField platform (evaluate platform) form session cf path scope) :=
        judgeField_keeps platform framed' fun _ kept => kept.2
      exact Triple.mono kept (fun s' same => same ▸ ⟨holds, by rw [stated]; rfl⟩) (fun _ _ => And.left) fun _ _ => And.left
  unfold evaluateFields
  split
  · exact throw_triple fun _ => id
  · rename_i cf found
    split
    · exact field cf fid none
    · rename_i rid inside
      refine Triple.get_bind fun s holds => ?_
      exact Triple.mono (Triple.forM fun iid _ => field cf _ _) (fun s' same => same ▸ holds) (fun _ _ => id) fun _ _ => id

theorem recalculate_keeps (passable : Passable form P) : Keeps P (recalculate (runtime platform) form session) := by
  refine Triple.bind (Triple.forM fun node member => resolveRows_triple passable (passAllowed_kept P) member) fun _ =>
    Triple.bind (Triple.forM fun node member => settleCount_keeps passable member fun _ _ _ holds _ _ => holds) fun _ =>
      Triple.forM fun fid _ => evaluateFields_keeps platform passable.toFramed fid

end Pass

end Device

end DataCollectionLab.Form
