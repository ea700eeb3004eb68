import DataCollectionLab.Form.Preview

/-!
The two engines beside each other, with one evaluator. Where every count is a number of rows and every answer to a list
is of its type, what one takes the other takes, and they end in the same state.
-/

namespace DataCollectionLab.Form

open Lib

def typedAnswer (dataType : String) : Value → Bool
  | .null => true
  | .text _ => dataType ≠ "select_multiple"
  | .sequence items => dataType = "select_multiple" && items.all fun item => (Evaluator.textOrNull item).isSome
  | _ => false

def CompiledField.closed (cf : CompiledField) : Bool :=
  cf.rowsQuery.isSome || cf.choiceQuery.isSome || cf.node.choices.any fun list => match list with
    | .inline _ => true
    | _ => false

def CompiledField.typed (cf : CompiledField) (value : Value) : Bool := !cf.closed || typedAnswer cf.node.dataType value

def countable : Value → Bool
  | .null => true
  | .integer n => -2 ^ 31 ≤ n && n < 2 ^ 31
  | _ => false

theorem wanted_countable {value : Value} (counts : countable value = true) : Reference.wanted value = Device.wanted value := by
  cases value with
  | null => rfl
  | integer n =>
    obtain ⟨lower, upper⟩ := Bool.and_eq_true_iff.mp counts
    have above := of_decide_eq_true lower
    have below := of_decide_eq_true upper
    show Except.ok n.toNat = Except.ok (Evaluator.toInt n).toNat
    rw [Evaluator.toInt, Int.bmod_eq_of_le (by norm_num; omega) (by norm_num; omega)]
  | _ => cases counts

section Choices

variable {platform : Device.Platform} {evaluate : Context → Expr → Except Failure Value} {form : CompiledForm}
  {session : Session} {cf : CompiledField} {scope : Option (String × String)} {s : FormInstance} {value : Value}

theorem texts_typed {items : List Value} (texts : ∀ item ∈ items, (Evaluator.textOrNull item).isSome) :
    ∃ words : List String, items = words.map Value.text := by
  refine ⟨items.filterMap Evaluator.textOrNull, ?_⟩
  induction items with
  | nil => rfl
  | cons item rest ih =>
    have later := ih fun other member => texts other (List.mem_cons_of_mem _ member)
    cases item with
    | text word => exact congrArg (Value.text word :: ·) later
    | _ => cases texts _ List.mem_cons_self

theorem answersOf_typed (some : value.isNull = false) (typed : typedAnswer cf.node.dataType value = true) :
    ∃ words : List String, answersOf cf.node.dataType value = words.map Value.text ∧
      ∀ permitted : List String, Device.inlineOutside (.some (.inline permitted)) value = words.any (· ∉ permitted) := by
  cases value with
  | text word => exact ⟨[word], rfl, fun permitted => by simp [Device.inlineOutside]⟩
  | sequence items =>
    obtain ⟨multiple, texts⟩ := Bool.and_eq_true_iff.mp typed
    obtain ⟨words, rfl⟩ := texts_typed (List.all_eq_true.mp texts)
    refine ⟨words, if_pos (of_decide_eq_true multiple), fun permitted => ?_⟩
    have read : (words.map Value.text).filterMap Evaluator.textOrNull = words := by
      rw [List.filterMap_map]
      exact List.filterMap_some
    show ((words.map Value.text).filterMap Evaluator.textOrNull).any _ = _
    rw [read]
  | null => cases some
  | _ => cases typed

theorem outsideChoices_typed (some : value.isNull = false) (typed : cf.typed value = true) :
    Reference.outsideChoices evaluate form session s cf scope value =
      Device.outsideChoices platform evaluate form session s cf scope value := by
  unfold Reference.outsideChoices Device.outsideChoices
  by_cases closed : cf.closed = true
  · have typed : typedAnswer cf.node.dataType value = true := by
      rw [CompiledField.typed, closed] at typed
      exact typed
    obtain ⟨words, answers, inline⟩ := answersOf_typed some typed
    cases rows : cf.rowsQuery with
    | some query =>
      dsimp only
      rw [answers]
      unfold someOutside
      rw [mapM_congr_of_mem fun one member => ?_]
      obtain ⟨word, -, rfl⟩ := List.mem_map.mp member
      rfl
    | none =>
      cases choices : cf.choiceQuery with
      | some query => rfl
      | none =>
        cases listed : cf.node.choices with
        | none => rfl
        | some list =>
          cases list with
          | inline permitted =>
            dsimp only
            rw [answers, inline]
            unfold someOutside
            rw [List.mapM_map, show (Reference.permits permitted ∘ Value.text) = fun word =>
              pure (decide (word ∈ permitted)) from rfl, List.mapM_pure]
            simp [bind, Except.bind, pure, Except.pure, List.any_map, Function.comp_def]
          | _ => rfl
  · have open_ : cf.closed = false := Bool.eq_false_iff.mpr closed
    obtain ⟨queries, inline⟩ := Bool.or_eq_false_iff.mp open_
    obtain ⟨rows, choices⟩ := Bool.or_eq_false_iff.mp queries
    rw [Option.isSome_eq_false_iff, Option.isNone_iff_eq_none] at rows choices
    rw [rows, choices]
    cases listed : cf.node.choices with
    | none => rfl
    | some list =>
      cases list with
      | inline permitted =>
        rw [listed] at inline
        cases inline
      | _ => rfl

end Choices

section Field

variable {platform : Device.Platform} {evaluate : Context → Expr → Except Failure Value} {form : CompiledForm}
  {session : Session} {cf : CompiledField} {path : String} {scope : Option (String × String)} {s s' : FormInstance}

def accrue (errors : List FieldError) (state : FieldState) : FieldState :=
  { state with valid := state.valid && errors.isEmpty, errors := state.errors ++ errors }

theorem fault_accrues (found : Bool) (error : FieldError) :
    (if found = true then Reference.change path (Reference.fault error) else return () : Run Unit) s = .ok () s' ↔
      s' = s.changeState path (accrue (Device.faults found error)) := by
  cases found with
  | true =>
    have same : Reference.fault error = accrue [error] := by
      funext state
      simp [Reference.fault, accrue]
    rw [if_pos rfl, same]
    exact (Device.change_ok_iff path)
  | false =>
    rw [Device.changeState_same s path fun state => by simp [accrue, Device.faults]]
    exact ⟨fun ran => (EStateM.Result.ok.inj ran).2.symm, fun same => same ▸ rfl⟩

variable (platform) in
theorem checkChoices_accrues {value : Value} (typed : cf.typed value = true) :
    Reference.checkChoices evaluate form session cf path scope value s = .ok () s' ↔
      ∃ outside, Device.choiceBroken platform evaluate form session cf scope s value = .ok outside ∧
        s' = s.changeState path (accrue (Device.faults outside .choice)) := by
  unfold Reference.checkChoices Device.choiceBroken
  cases null : value.isNull with
  | true =>
    have quiet := @fault_accrues path s s' false .choice
    exact ⟨fun ran => ⟨false, rfl, quiet.mp ran⟩, fun ⟨_, same, rest⟩ => quiet.mpr (Except.ok.inj same ▸ rest)⟩
  | false =>
    simp only [Bool.false_eq_true, if_false]
    rw [← outsideChoices_typed null typed]
    constructor
    · intro ran
      obtain ⟨_, _, begun, rest⟩ := run_bind_ok_iff.mp ran
      obtain ⟨rfl, rfl⟩ := EStateM.Result.ok.inj begun
      obtain ⟨outside, _, lifted, ended⟩ := run_bind_ok_iff.mp rest
      obtain ⟨read, rfl⟩ := Device.lift_ok_iff.mp lifted
      exact ⟨outside, read, (fault_accrues outside _).mp ended⟩
    · rintro ⟨outside, read, rest⟩
      exact run_bind_ok_iff.mpr ⟨s, s, rfl, run_bind_ok_iff.mpr
        ⟨outside, s, Device.lift_ok_iff.mpr ⟨read, rfl⟩, (fault_accrues outside _).mpr rest⟩⟩

theorem checkConstraint_accrues {value : Value} :
    Reference.checkConstraint evaluate session cf path scope value s = .ok () s' ↔
      ∃ broken, Device.constraintBroken evaluate session cf scope s value = .ok broken ∧
        s' = s.changeState path (accrue (Device.faults broken
          (.constraint cf.node.constraintMessage (cf.node.severity.getD "error")))) := by
  unfold Reference.checkConstraint Device.constraintBroken
  have quiet := @fault_accrues path s s' false (.constraint cf.node.constraintMessage (cf.node.severity.getD "error"))
  have still : (pure () : Run Unit) s = .ok () s' ↔ ∃ broken, (.ok false : Except Failure Bool) = .ok broken ∧
      s' = s.changeState path (accrue (Device.faults broken
        (.constraint cf.node.constraintMessage (cf.node.severity.getD "error")))) :=
    ⟨fun ran => ⟨false, rfl, quiet.mp ran⟩, fun ⟨_, same, rest⟩ => quiet.mpr (Except.ok.inj same ▸ rest)⟩
  cases given : cf.node.constraint with
  | none => exact still
  | some constraint =>
    cases null : value.isNull with
    | true => exact still
    | false =>
      dsimp only
      have turned (holds : Bool) : (if holds = false then Reference.change path (Reference.fault
          (.constraint cf.node.constraintMessage (cf.node.severity.getD "error"))) else return () : Run Unit) s = .ok () s' ↔
          s' = s.changeState path (accrue (Device.faults (!holds)
            (.constraint cf.node.constraintMessage (cf.node.severity.getD "error")))) := by
        rw [← fault_accrues]
        cases holds <;> rfl
      constructor
      · intro ran
        obtain ⟨_, _, begun, rest⟩ := run_bind_ok_iff.mp ran
        obtain ⟨rfl, rfl⟩ := EStateM.Result.ok.inj begun
        obtain ⟨holds, _, lifted, ended⟩ := run_bind_ok_iff.mp rest
        obtain ⟨read, rfl⟩ := Device.lift_ok_iff.mp lifted
        exact ⟨!holds, by rw [read]; rfl, (turned holds).mp ended⟩
      · rintro ⟨broken, found, rest⟩
        obtain ⟨holds, read, rfl⟩ := map_ok_iff.mp found
        exact run_bind_ok_iff.mpr ⟨s, s, rfl, run_bind_ok_iff.mpr
          ⟨holds, s, Device.lift_ok_iff.mpr ⟨read, rfl⟩, (turned holds).mpr rest⟩⟩

variable (platform) in
theorem checks_accrue {value : Value} {relevant required : Bool} (typed : cf.typed value = true) :
    (if relevant = true then (do
        Reference.checkRequired path required value
        Reference.checkChoices evaluate form session cf path scope value
        Reference.checkConstraint evaluate session cf path scope value)
      else return () : Run Unit) s = .ok () s' ↔
      ∃ errors, Device.outcomeErrors platform evaluate form session cf scope s relevant required value = .ok errors ∧
        s' = s.changeState path (accrue errors) := by
  have both (first second : List FieldError) : accrue second ∘ accrue first = accrue (first ++ second) := by
    funext state
    cases first <;> simp [accrue]
  have missing : Reference.checkRequired path required value = (if (required && value.isNull) = true then
      Reference.change path (Reference.fault .required) else return () : Run Unit) := by
    unfold Reference.checkRequired
    simp only [Bool.and_eq_true]
  have step {first second : List FieldError} : (s.changeState path (accrue first)).changeState path (accrue second) =
      s.changeState path (accrue (first ++ second)) := by
    rw [Device.changeState_changeState, ← both]
    rfl
  cases relevant with
  | false =>
    constructor
    · intro ran
      refine ⟨[], rfl, ?_⟩
      rw [Device.changeState_same s path fun state => by simp [accrue]]
      exact (EStateM.Result.ok.inj ran).2.symm
    · rintro ⟨errors, same, rfl⟩
      obtain rfl := Except.ok.inj same
      rw [Device.changeState_same s path fun state => by simp [accrue]]
      rfl
  | true =>
    simp only [if_true, Device.outcomeErrors]
    rw [missing]
    constructor
    · intro ran
      obtain ⟨⟨⟩, _, first, ran⟩ := run_bind_ok_iff.mp ran
      obtain rfl := (fault_accrues _ _).mp first
      obtain ⟨⟨⟩, _, second, ran⟩ := run_bind_ok_iff.mp ran
      obtain ⟨outside, found, rfl⟩ := (checkChoices_accrues platform typed).mp second
      obtain ⟨broken, failed, rfl⟩ := checkConstraint_accrues.mp ran
      refine ⟨_, bind_ok_iff.mpr ⟨outside, found, bind_ok_iff.mpr ⟨broken, failed, rfl⟩⟩, ?_⟩
      rw [step, step]
    · rintro ⟨errors, judged, rfl⟩
      obtain ⟨outside, found, judged⟩ := bind_ok_iff.mp judged
      obtain ⟨broken, failed, judged⟩ := bind_ok_iff.mp judged
      obtain rfl := Except.ok.inj judged
      refine run_bind_ok_iff.mpr ⟨(), _, (fault_accrues _ _).mpr rfl, run_bind_ok_iff.mpr
        ⟨(), _, (checkChoices_accrues platform typed).mpr ⟨outside, found, rfl⟩,
          checkConstraint_accrues.mpr ⟨broken, failed, ?_⟩⟩⟩
      rw [step, step]

theorem checks_keep {value : Value} (relevant required : Bool) :
    Triple (fun s => s.values path = some value) (if relevant = true then (do
        Reference.checkRequired path required value
        Reference.checkChoices evaluate form session cf path scope value
        Reference.checkConstraint evaluate session cf path scope value)
      else return () : Run Unit) (fun _ s => s.values path = some value) fun _ _ => True := by
  have faulted (error : FieldError) : Triple (fun s => s.values path = some value)
      (Reference.change path (Reference.fault error)) (fun _ s => s.values path = some value) fun _ _ => True :=
    fun _ holds => holds
  split
  · refine Triple.bind (Q := fun _ s => s.values path = some value) ?_ fun _ =>
      Triple.bind (Q := fun _ s => s.values path = some value) ?_ fun _ => ?_
    · unfold Reference.checkRequired
      split
      · exact faulted _
      · exact pure_triple _
    · unfold Reference.checkChoices
      split
      · exact pure_triple _
      · refine read_step (fun _ _ _ _ => trivial) fun outside => ?_
        split
        · exact faulted _
        · exact pure_triple _
    · unfold Reference.checkConstraint
      split
      · refine read_step (fun _ _ _ _ => trivial) fun holds => ?_
        split
        · exact faulted _
        · exact pure_triple _
      · exact pure_triple _
  · exact pure_triple _

theorem takeValue_ok_iff {relevant : Bool} {value : Value} :
    (∃ between, Reference.calculateValue evaluate session cf path scope relevant s = .ok () between ∧
      Reference.takeValue path between = .ok value s') ↔
      Device.fieldValue evaluate session cf path scope s relevant = .ok value ∧
        s' = (s.setValue path value).changeState path fun state => { state with value := value } := by
  have calculated : Reference.calculateValue evaluate session cf path scope relevant =
      Device.calculateValue evaluate session cf path scope relevant := rfl
  have taken (between : FormInstance) : Reference.takeValue path between = .ok value s' ↔
      Device.takeValue path between = .ok value between ∧
        s' = between.changeState path fun state => { state with value := value } := by
    unfold Reference.takeValue Device.takeValue
    rw [apply_get_bind, apply_get_bind]
    cases between.values path with
    | none => exact ⟨(nomatch ·), fun both => nomatch both.1⟩
    | some held =>
      constructor
      · intro ran
        obtain ⟨rfl, rfl⟩ := EStateM.Result.ok.inj ran
        exact ⟨rfl, rfl⟩
      · rintro ⟨same, rfl⟩
        obtain ⟨rfl, -⟩ := EStateM.Result.ok.inj same
        rfl
  rw [calculated]
  constructor
  · rintro ⟨between, ran, took⟩
    obtain ⟨held, rfl⟩ := (taken between).mp took
    obtain ⟨read, rfl⟩ := (Device.value_ok_iff evaluate session cf path scope).mp ⟨between, ran, held⟩
    exact ⟨read, rfl⟩
  · rintro ⟨read, rfl⟩
    obtain ⟨between, ran, took⟩ := (Device.value_ok_iff evaluate session cf path scope).mpr ⟨read, rfl⟩
    obtain rfl : s.setValue path value = between := by
      unfold Device.takeValue at took
      rw [apply_get_bind] at took
      cases held : between.values path with
      | none =>
        rw [held] at took
        cases took
      | some value' =>
        rw [held] at took
        exact (EStateM.Result.ok.inj took).2.symm
    exact ⟨_, ran, (taken _).mpr ⟨took, rfl⟩⟩

theorem markRelevant_ok_iff {relevant : Bool} :
    Reference.markRelevant evaluate form session cf path scope s = .ok relevant s' ↔
      fieldRelevant evaluate form (s.context session scope) cf = .ok relevant ∧
        s' = s.changeState path fun state => { state with errors := [], relevant := relevant } := by
  have twice : ((s.changeState path fun state => { state with errors := [] }).changeState path
      fun state => { state with relevant := relevant }) =
      s.changeState path fun state => { state with errors := [], relevant := relevant } :=
    Device.changeState_changeState ..
  rw [← twice]
  constructor
  · intro ran
    obtain ⟨⟨⟩, _, cleared, ran⟩ := run_bind_ok_iff.mp ran
    obtain rfl := (Device.change_ok_iff path).mp cleared
    obtain ⟨_, _, begun, ran⟩ := run_bind_ok_iff.mp ran
    obtain ⟨rfl, rfl⟩ := EStateM.Result.ok.inj begun
    obtain ⟨found, _, lifted, ran⟩ := run_bind_ok_iff.mp ran
    obtain ⟨read, rfl⟩ := Device.lift_ok_iff.mp lifted
    obtain ⟨⟨⟩, _, marked, ended⟩ := run_bind_ok_iff.mp ran
    obtain rfl := (Device.change_ok_iff path).mp marked
    obtain ⟨rfl, rfl⟩ := EStateM.Result.ok.inj ended
    exact ⟨read, rfl⟩
  · rintro ⟨read, rfl⟩
    exact run_bind_ok_iff.mpr ⟨(), _, (Device.change_ok_iff path).mpr rfl, run_bind_ok_iff.mpr ⟨_, _, rfl,
      run_bind_ok_iff.mpr ⟨relevant, _, Device.lift_ok_iff.mpr ⟨read, rfl⟩, run_bind_ok_iff.mpr
        ⟨(), _, (Device.change_ok_iff path).mpr rfl, rfl⟩⟩⟩⟩

theorem markFlags_ok_iff {required : Bool} : Reference.markFlags evaluate session cf path scope s = .ok required s' ↔
    flagOf evaluate (s.context session scope) cf.node.required = .ok required ∧
      ∃ readOnly, flagOf evaluate (s.context session scope) cf.node.readOnly = .ok readOnly ∧
        s' = s.changeState path fun state => { state with required := required, readOnly := readOnly, valid := true } := by
  have twice (readOnly : Bool) : ((s.changeState path fun state => { state with required := required }).changeState path
      fun state => { state with readOnly := readOnly, valid := true }) =
      s.changeState path fun state => { state with required := required, readOnly := readOnly, valid := true } :=
    Device.changeState_changeState ..
  simp only [← twice]
  constructor
  · intro ran
    obtain ⟨_, _, begun, ran₁⟩ := run_bind_ok_iff.mp ran
    obtain ⟨rfl, rfl⟩ := EStateM.Result.ok.inj begun
    obtain ⟨needed, _, lifted, ran₂⟩ := run_bind_ok_iff.mp ran₁
    obtain ⟨read, rfl⟩ := Device.lift_ok_iff.mp lifted
    obtain ⟨⟨⟩, _, wrote, ran₃⟩ := run_bind_ok_iff.mp ran₂
    obtain rfl := (Device.change_ok_iff path).mp wrote
    obtain ⟨_, _, again, ran₄⟩ := run_bind_ok_iff.mp ran₃
    obtain ⟨rfl, rfl⟩ := EStateM.Result.ok.inj again
    obtain ⟨locked, _, lifted', ran₅⟩ := run_bind_ok_iff.mp ran₄
    obtain ⟨read', rfl⟩ := Device.lift_ok_iff.mp lifted'
    obtain ⟨⟨⟩, _, wrote', ended⟩ := run_bind_ok_iff.mp ran₅
    obtain rfl := (Device.change_ok_iff path).mp wrote'
    obtain ⟨rfl, rfl⟩ := EStateM.Result.ok.inj ended
    exact ⟨read, locked, read', rfl⟩
  · rintro ⟨read, locked, read', rfl⟩
    exact run_bind_ok_iff.mpr ⟨_, _, rfl, run_bind_ok_iff.mpr ⟨required, _, Device.lift_ok_iff.mpr ⟨read, rfl⟩,
      run_bind_ok_iff.mpr ⟨(), _, (Device.change_ok_iff path).mpr rfl, run_bind_ok_iff.mpr ⟨_, _, rfl,
        run_bind_ok_iff.mpr ⟨locked, _, Device.lift_ok_iff.mpr ⟨read', rfl⟩, run_bind_ok_iff.mpr
          ⟨(), _, (Device.change_ok_iff path).mpr rfl, rfl⟩⟩⟩⟩⟩⟩

theorem settle_eq (o : Device.Outcome) :
    ((((s.changeState path fun state => { state with errors := [], relevant := o.relevant }).setValue path
      o.value).changeState path fun state => { state with value := o.value }).changeState path
      fun state => { state with required := o.required, readOnly := o.readOnly, valid := true }).changeState path
        (accrue o.errors) = o.settle path s := by
  rw [Device.setValue_changeState, Device.changeState_changeState, Device.changeState_changeState,
    Device.changeState_changeState]
  rfl

variable (platform) in
theorem evaluateField_iff :
    (Reference.evaluateField evaluate form session cf path scope s = .ok () s' ∧ (s'.values path).all cf.typed = true) ↔
      Device.evaluateField platform evaluate form session cf path scope s = .ok () s' ∧
        (s'.values path).all cf.typed = true := by
  refine and_congr_left fun typed => ?_
  rw [Device.evaluateField_ok_iff]
  have steps : Reference.evaluateField evaluate form session cf path scope s =
      (if (s.states path).isNone then throw (.raised "KeyError")
        else Reference.markRelevant evaluate form session cf path scope >>=
          Reference.settleField evaluate form session cf path scope : Run Unit) s := by
    rw [Reference.evaluateField_eq, apply_get_bind]
    split <;> rfl
  rw [steps]
  cases s.states path with
  | none => exact ⟨(nomatch ·), fun both => nomatch both.1⟩
  | some state =>
    show (_ >>= _ : Run Unit) s = _ ↔ _
    have context (s : FormInstance) (f : FieldState → FieldState) :
        (s.changeState path f).context session scope = s.context session scope := rfl
    have unread (s : FormInstance) (f : FieldState → FieldState) (relevant required : Bool) (value : Value) :
        Device.outcomeErrors platform evaluate form session cf scope (s.changeState path f) relevant required value =
          Device.outcomeErrors platform evaluate form session cf scope s relevant required value := rfl
    constructor
    · intro ran
      obtain ⟨relevant, _, marked, ran₁⟩ := run_bind_ok_iff.mp ran
      obtain ⟨relevance, rfl⟩ := markRelevant_ok_iff.mp marked
      obtain ⟨⟨⟩, between, calculated, ran₂⟩ := run_bind_ok_iff.mp ran₁
      obtain ⟨value, _, took, ran₃⟩ := run_bind_ok_iff.mp ran₂
      obtain ⟨valued, rfl⟩ := takeValue_ok_iff.mp ⟨between, calculated, took⟩
      obtain ⟨required, _, flagged, ran₄⟩ := run_bind_ok_iff.mp ran₃
      obtain ⟨needs, readOnly, locks, rfl⟩ := markFlags_ok_iff.mp flagged
      rw [context, Device.setValue_changeState, context] at needs locks
      have valueTyped : cf.typed value = true := by
        rw [(checks_keep relevant required).ok (if_pos rfl) ran₄] at typed
        exact typed
      obtain ⟨errors, judged, rfl⟩ := (checks_accrue platform valueTyped).mp ran₄
      rw [unread, unread, Device.setValue_changeState, unread] at judged
      refine ⟨rfl, ⟨relevant, value, required, readOnly, errors⟩, ?_, settle_eq ⟨relevant, value, required, readOnly, errors⟩⟩
      exact bind_ok_iff.mpr ⟨relevant, relevance, bind_ok_iff.mpr ⟨value, valued, bind_ok_iff.mpr ⟨required, needs,
        bind_ok_iff.mpr ⟨readOnly, locks, bind_ok_iff.mpr ⟨errors, judged, rfl⟩⟩⟩⟩⟩
    · rintro ⟨-, o, came, rfl⟩
      obtain ⟨relevant, relevance, came₁⟩ := bind_ok_iff.mp came
      obtain ⟨value, valued, came₂⟩ := bind_ok_iff.mp came₁
      obtain ⟨required, needs, came₃⟩ := bind_ok_iff.mp came₂
      obtain ⟨readOnly, locks, came₄⟩ := bind_ok_iff.mp came₃
      obtain ⟨errors, judged, same⟩ := bind_ok_iff.mp came₄
      obtain rfl := Except.ok.inj same
      have valueTyped : cf.typed value = true := by
        rwa [show ((⟨relevant, value, required, readOnly, errors⟩ : Device.Outcome).settle path s).values path = some value
          from if_pos rfl] at typed
      rw [← settle_eq]
      obtain ⟨between, calculated, took⟩ := (takeValue_ok_iff
        (s := s.changeState path fun state => { state with errors := [], relevant := relevant })).mpr ⟨valued, rfl⟩
      refine run_bind_ok_iff.mpr ⟨relevant, _, markRelevant_ok_iff.mpr ⟨relevance, rfl⟩, run_bind_ok_iff.mpr ⟨(), between,
        calculated, run_bind_ok_iff.mpr ⟨value, _, took, run_bind_ok_iff.mpr ⟨required, _, markFlags_ok_iff.mpr ⟨?_, readOnly,
          ?_, rfl⟩, (checks_accrue platform valueTyped).mpr ⟨errors, ?_, rfl⟩⟩⟩⟩⟩
      · rw [context, Device.setValue_changeState, context]
        exact needs
      · rw [context, Device.setValue_changeState, context]
        exact locks
      · rw [unread, unread, Device.setValue_changeState, unread]
        exact judged

end Field

section Matched

def Runtime.typed (runtime : Runtime) : Runtime where
  evaluate := runtime.evaluate
  count value := if countable value then runtime.count value else .error (.raised "TypeError")
  canonical _ path := .ok path
  evaluateField form session cf path scope := do
    runtime.evaluateField form session cf path scope
    if (← get).values path |>.all cf.typed then return () else throw (.raised "TypeError")

structure Matched (form : CompiledForm) (session : Session) (I : FormInstance → Prop) (r r' : Runtime) : Prop where
  evaluate : r'.evaluate = r.evaluate
  count : ∀ value n, r.count value = .ok n → r'.count value = .ok n
  field : ∀ cf path scope s s', r.evaluateField form session cf path scope s = .ok () s' →
    r'.evaluateField form session cf path scope s = .ok () s'
  canonical : ∀ s path, I s → (s.values path).isSome → r'.canonical s.instances path = .ok path
  plain : ∀ instances path, r.canonical instances path = .ok path

variable {form : CompiledForm} {session : Session} {I : FormInstance → Prop} {r r' : Runtime}
  (matched : Matched form session I r r')

theorem mirrors_refl {α : Type} (m : Run α) : Mirrors (· = ·) m m fun _ => (· = ·) := by
  rintro s _ rfl a s' ran
  exact ⟨s', ran, rfl⟩

theorem mirrors_lift {α : Type} {x y : Except Failure α} (same : ∀ a, x = .ok a → y = .ok a) :
    Mirrors (· = ·) (Run.lift x) (Run.lift y) fun _ => (· = ·) := by
  rintro s _ rfl a s' ran
  obtain ⟨read, rfl⟩ := Device.lift_ok_iff.mp ran
  exact ⟨s', Device.lift_ok_iff.mpr ⟨same a read, rfl⟩, rfl⟩

theorem mirrors_get {α : Type} {f g : FormInstance → Run α} (each : ∀ s, Mirrors (· = ·) (f s) (g s) fun _ => (· = ·)) :
    Mirrors (· = ·) (MonadState.get >>= f) (MonadState.get >>= g) fun _ => (· = ·) :=
  Mirrors.get_bind fun s _ same => Mirrors.mono (same ▸ each s) (fun _ _ both => both.1) fun _ _ _ => id

include matched

theorem recalculate_matched : Mirrors (· = ·) (recalculate r form session) (recalculate r' form session)
    fun _ => (· = ·) := by
  refine Mirrors.bind (Mirrors.forM fun node _ => ?_) fun _ => Mirrors.bind (Mirrors.forM fun node _ => ?_) fun _ =>
    Mirrors.forM fun fid _ => ?_
  · have same : resolveRows r' form session node = resolveRows r form session node := by
      unfold resolveRows
      rw [matched.evaluate]
    rw [same]
    exact mirrors_refl _
  · unfold settleCount
    cases node.countExpr with
    | none => exact mirrors_refl _
    | some expr =>
      refine mirrors_get fun s => Mirrors.bind (mirrors_lift fun n counted => ?_) fun _ => mirrors_refl _
      obtain ⟨value, found, counts⟩ := bind_ok_iff.mp counted
      exact bind_ok_iff.mpr ⟨value, by rw [matched.evaluate]; exact found, matched.count value n counts⟩
  · have field (cf : CompiledField) (path : String) (scope : Option (String × String)) :
        Mirrors (· = ·) (r.evaluateField form session cf path scope) (r'.evaluateField form session cf path scope)
          fun _ => (· = ·) := by
      rintro s _ rfl _ s' ran
      exact ⟨s', matched.field cf path scope s s' ran, rfl⟩
    unfold evaluateFields
    cases form.field? fid with
    | none => exact Mirrors.of_throw
    | some cf =>
      dsimp only
      cases cf.repeatId with
      | none => exact field cf fid none
      | some rid => exact mirrors_get fun s => Mirrors.forM fun iid _ => field cf _ _

theorem addInstance_matched (rid : String) : Mirrors (· = ·) (addInstance r form session rid)
    (addInstance r' form session rid) fun _ => (· = ·) := by
  have last : Mirrors (· = ·) (createInstance form rid none >>= fun iid => recalculate r form session >>= fun _ => pure iid)
      (createInstance form rid none >>= fun iid => recalculate r' form session >>= fun _ => pure iid) fun _ => (· = ·) :=
    Mirrors.bind (mirrors_refl _) fun iid => Mirrors.bind (recalculate_matched matched) fun _ => mirrors_refl _
  unfold addInstance
  cases form.repeat? rid with
  | none => exact Mirrors.of_throw
  | some node =>
    dsimp only
    split
    · exact Mirrors.of_throw
    split
    · exact Mirrors.of_throw
    cases node.maxInstances with
    | none => exact last
    | some maximum =>
      refine mirrors_get fun s => ?_
      split
      · exact Mirrors.of_throw
      · exact last

theorem deleteInstance_matched (rid : String) (index : ℤ) : Mirrors (· = ·) (deleteInstance r form session rid index)
    (deleteInstance r' form session rid index) fun _ => (· = ·) := by
  unfold deleteInstance
  cases form.repeat? rid with
  | none => exact Mirrors.of_throw
  | some node =>
    refine mirrors_get fun s => ?_
    dsimp only
    split
    · exact Mirrors.of_throw
    split
    · exact Mirrors.of_throw
    split
    · exact Mirrors.of_throw
    generalize (if node.rowSource.isSome then none else node.minInstances) = minimum
    split
    · exact Mirrors.of_throw
    · exact Mirrors.bind (mirrors_refl _) fun _ => Mirrors.bind (mirrors_refl _) fun _ => Mirrors.bind (mirrors_refl _)
        fun _ => recalculate_matched matched

end Matched

section Runs

variable {form : CompiledForm} {session : Session}

theorem Since.referenced_placed {s : FormInstance} (formed : Formed form) (minted : Since form (blank form) s) {path : String}
    (placed : (s.values path).isSome) : Reference.canonical s.instances path = .ok path := by
  unfold Reference.canonical
  rcases minted.cut_placed formed placed with uncut | ⟨rid, rest, suffix, ordered, n, opened, closed, given⟩
  · rw [uncut]
  · rw [opened]
    cases cutAt "].".toList path.toList with
    | none => rfl
    | some cut =>
      dsimp only
      rw [closed, given]
      dsimp only
      refine if_neg fun counted => ?_
      have first := List.all_eq_true.mp counted.2 'i' List.mem_cons_self
      revert first
      decide

inductive Operation where
  | set (path : String) (value : Value)
  | add (repeatId : String)
  | delete (repeatId : String) (index : ℤ)

def Operation.perform (runtime : Runtime) (form : CompiledForm) (session : Session) : Operation → Run Unit
  | set path value => setMany runtime form session [(path, value)]
  | add rid => discard (addInstance runtime form session rid)
  | delete rid index => deleteInstance runtime form session rid index

def interview (runtime : Runtime) (form : CompiledForm) (session : Session) (operations : List Operation) : Run Unit := do
  construct runtime form session
  operations.forM (Operation.perform runtime form session)

variable {I : FormInstance → Prop} {r r' : Runtime}

theorem perform_matched (matched : Matched form session I r r') (operation : Operation) :
    Mirrors (fun s t => s = t ∧ I s) (operation.perform r form session) (operation.perform r' form session)
      fun _ => (· = ·) := by
  cases operation with
  | set path value =>
    rintro s _ ⟨rfl, holds⟩ _ s' ran
    obtain ⟨⟨⟩, between, placed, passed⟩ := run_bind_ok_iff.mp ran
    have put : ([(path, value)].forM (placeAnswer r') : Run Unit) s = .ok () between := by
      obtain ⟨⟨⟩, _, put, ended⟩ := run_bind_ok_iff.mp placed
      obtain ⟨-, rfl⟩ := EStateM.Result.ok.inj ended
      refine run_bind_ok_iff.mpr ⟨(), _, ?_, rfl⟩
      rcases placeAnswer_cases r (path, value) s with ⟨e, -, failed⟩ | ⟨_, -, -, failed⟩ | ⟨_, found, kept, answered⟩
      · cases failed.symm.trans put
      · cases failed.symm.trans put
      · obtain ⟨-, rfl⟩ := EStateM.Result.ok.inj (answered.symm.trans put)
        obtain rfl := Except.ok.inj ((matched.plain _ _).symm.trans found)
        refine run_bind_ok_iff.mpr ⟨s, s, rfl, run_bind_ok_iff.mpr
          ⟨path, s, Device.lift_ok_iff.mpr ⟨matched.canonical s path holds kept, rfl⟩, ?_⟩⟩
        rw [apply_get_bind, ← Option.not_isSome, kept]
        rfl
    obtain ⟨_, again, rfl⟩ := recalculate_matched matched between between rfl () s' passed
    exact ⟨_, run_bind_ok_iff.mpr ⟨(), between, put, again⟩, rfl⟩
  | add rid =>
    refine Mirrors.mono ?_ (fun _ _ both => both.1) fun _ _ _ => id
    exact Mirrors.bind (addInstance_matched matched rid) fun _ => mirrors_refl _
  | delete rid index => exact Mirrors.mono (deleteInstance_matched matched rid index) (fun _ _ both => both.1) fun _ _ _ => id

theorem interview_matched (matched : Matched form session I r r')
    (begun : ∀ s s', construct r' form session s = .ok () s' → I s')
    (kept : ∀ operation : Operation, Keeps I (operation.perform r' form session)) {operations : List Operation}
    {s s' : FormInstance} (ran : interview r form session operations s = .ok () s') :
    interview r' form session operations s = .ok () s' := by
  have constructed : Mirrors (· = ·) (construct r form session) (construct r' form session) fun _ => (· = ·) :=
    Mirrors.bind (mirrors_refl _) fun _ => Mirrors.bind (mirrors_refl _) fun _ => recalculate_matched matched
  obtain ⟨⟨⟩, between, first, ran⟩ := run_bind_ok_iff.mp ran
  obtain ⟨_, first', rfl⟩ := constructed s s rfl () between first
  have rest : Mirrors (fun s t => s = t ∧ I s) (operations.forM (Operation.perform r form session))
      (operations.forM (Operation.perform r' form session)) fun _ s t => s = t ∧ I s := by
    refine Mirrors.forM fun operation _ => ?_
    rintro s t ⟨rfl, holds⟩ a s' ran
    obtain ⟨_, ran', rfl⟩ := perform_matched matched operation s s ⟨rfl, holds⟩ a s' ran
    exact ⟨_, ran', rfl, (kept operation).ok holds ran'⟩
  obtain ⟨_, ran', rfl, -⟩ := rest between between ⟨rfl, begun s between first'⟩ () s' ran
  exact run_bind_ok_iff.mpr ⟨(), between, first', ran'⟩

theorem typed_field_iff {cf : CompiledField} {path : String} {scope : Option (String × String)} {s s' : FormInstance} :
    r.typed.evaluateField form session cf path scope s = .ok () s' ↔
      r.evaluateField form session cf path scope s = .ok () s' ∧ (s'.values path).all cf.typed = true := by
  constructor
  · intro ran
    obtain ⟨⟨⟩, between, ran', checked⟩ := run_bind_ok_iff.mp ran
    rw [apply_get_bind] at checked
    split at checked
    · rename_i typed
      obtain ⟨-, rfl⟩ := EStateM.Result.ok.inj checked
      exact ⟨ran', typed⟩
    · cases checked
  · rintro ⟨ran, typed⟩
    refine run_bind_ok_iff.mpr ⟨(), s', ran, ?_⟩
    rw [apply_get_bind, if_pos typed]
    rfl

theorem typed_matched (canonical : ∀ s path, I s → (s.values path).isSome → r.canonical s.instances path = .ok path) :
    Matched form session I r.typed r := by
  refine ⟨rfl, fun value n counted => ?_, fun cf path scope s s' ran => ?_, canonical, fun _ _ => rfl⟩
  · dsimp only [Runtime.typed] at counted
    split at counted
    · exact counted
    · cases counted
  · exact (typed_field_iff.mp ran).1

theorem perform_minted (formed : Formed form) (passes : Passes r form session) (operation : Operation) :
    Keeps (Minted form) (operation.perform r form session) := by
  cases operation with
  | set path value => exact setMany_since formed passes [(path, value)]
  | add rid => exact Triple.bind (addInstance_since formed passes rid) fun _ => pure_triple _
  | delete rid index => exact deleteInstance_since formed passes rid index

variable {platform : Device.Platform}

theorem typed_sound (formed : Formed form) (passes : Passes r form session)
    (canonical : ∀ s path, Minted form s → (s.values path).isSome → r.canonical s.instances path = .ok path)
    {operations : List Operation} {s s' : FormInstance}
    (ran : interview r.typed form session operations s = .ok () s') : interview r form session operations s = .ok () s' := by
  refine interview_matched (typed_matched canonical) (fun s s' constructed => ?_) (perform_minted formed passes) ran
  obtain ⟨well, grown⟩ := construct_kept session formed passes constructed
  exact ⟨well, grown⟩

theorem typed_same {value : Value} :
    (Device.runtime platform).typed.count value = (Reference.runtime (Device.evaluate platform)).typed.count value := by
  dsimp only [Runtime.typed]
  split
  · rename_i counts
    exact (wanted_countable counts).symm
  · rfl

/-- One evaluator for both engines: in an interview whose counts are numbers of rows and whose answers to lists are of
their types, what one engine takes the other takes, and they end in the same state. -/
theorem engines_in_step {children : List Node} (compiled : compile children = .ok form) (operations : List Operation)
    (s s' : FormInstance) :
    (interview (Device.runtime platform).typed form session operations s = .ok () s' ↔
      interview (Reference.runtime (Device.evaluate platform)).typed form session operations s = .ok () s') ∧
    (interview (Device.runtime platform).typed form session operations s = .ok () s' →
      interview (Device.runtime platform) form session operations s = .ok () s' ∧
        interview (Reference.runtime (Device.evaluate platform)) form session operations s = .ok () s') := by
  have formed := compile_formed compiled
  have device : Matched form session (fun _ => True) (Device.runtime platform).typed
      (Reference.runtime (Device.evaluate platform)).typed := by
    refine ⟨rfl, fun value n counted => typed_same.symm.trans counted, fun cf path scope s s' ran => ?_, fun _ _ _ _ => rfl,
      fun _ _ => rfl⟩
    exact typed_field_iff.mpr ((evaluateField_iff platform).mpr (typed_field_iff.mp ran))
  have reference : Matched form session (fun _ => True) (Reference.runtime (Device.evaluate platform)).typed
      (Device.runtime platform).typed := by
    refine ⟨rfl, fun value n counted => typed_same.trans counted, fun cf path scope s s' ran => ?_, fun _ _ _ _ => rfl,
      fun _ _ => rfl⟩
    exact typed_field_iff.mpr ((evaluateField_iff platform).mp (typed_field_iff.mp ran))
  have always (r : Runtime) (operation : Operation) : Keeps (fun _ => True) (operation.perform r form session) :=
    keeps_of_after fun _ _ => trivial
  have across : interview (Device.runtime platform).typed form session operations s = .ok () s' ↔
      interview (Reference.runtime (Device.evaluate platform)).typed form session operations s = .ok () s' :=
    ⟨interview_matched device (fun _ _ _ => trivial) (always _),
      interview_matched reference (fun _ _ _ => trivial) (always _)⟩
  refine ⟨across, fun ran => ⟨?_, ?_⟩⟩
  · exact typed_sound formed (fun P => Device.recalculate_keeps platform)
      (fun s path minted placed => minted.canonical_placed formed placed) ran
  · exact typed_sound formed (fun P passable => recalculate_keeps passable _ session)
      (fun s path minted placed => minted.referenced_placed formed placed) (across.mp ran)

def sizedVisit : List Operation :=
  [.set "n" (.integer 2), .set "r[i2].a" (.text "K"), .set "n" (.integer 3), .set "r[i3].a" (.text "A")]

def visited : FormInstance := after (interview (Device.runtime still).typed sizedForm noon sizedVisit) (blank sizedForm)

theorem sized_in_step : compile sized = .ok sizedForm ∧ visited.rows "r" = ["i1", "i2", "i3"] ∧
    interview (Device.runtime still) sizedForm noon sizedVisit (blank sizedForm) = .ok () visited ∧
      interview (Reference.runtime (Device.evaluate still)) sizedForm noon sizedVisit (blank sizedForm) = .ok () visited :=
  ⟨rfl, by decide +kernel, (@engines_in_step sizedForm noon still sized rfl sizedVisit (blank sizedForm) visited).2 rfl⟩

end Runs

end DataCollectionLab.Form
