import DataCollectionLab.Form.Departures

/-!
The two engines on whole trees. Where no operator that is reached departs, they come to one outcome.
-/

namespace DataCollectionLab.Form

open Lib

section Trees

def FormValue.Leaf : FormValue → Prop
  | .null | .bool _ | .integer _ | .text _ => True
  | .sequence items => ∀ item ∈ items, ∃ text, item = .text text
  | .decimal _ | .dateValue _ | .geoPoint .. | .mediaRef .. => False

theorem ofForms_texts {items : List FormValue} (texts : ∀ item ∈ items, ∃ text, item = .text text) :
    ∀ item ∈ Value.ofForms items, ∃ text, item = .text text := by
  induction items with
  | nil =>
    intro item member
    exact absurd member List.not_mem_nil
  | cons first rest ih =>
    intro item member
    rcases List.mem_cons.mp member with rfl | later
    · obtain ⟨text, rfl⟩ := texts first List.mem_cons_self
      exact ⟨text, rfl⟩
    · exact ih (fun item member => texts item (List.mem_cons_of_mem _ member)) item later

theorem ofForm_proper {value : FormValue} (leaf : value.Leaf) : (Value.ofForm value).Proper := by
  cases value with
  | null => trivial
  | bool value => trivial
  | text value => trivial
  | integer value => exact inRange_iff.mpr ⟨value.le_toInt, value.toInt_lt⟩
  | sequence items => exact ofForms_texts leaf
  | decimal value => exact leaf.elim
  | dateValue iso => exact leaf.elim
  | geoPoint lat lon alt accuracy => exact leaf.elim
  | mediaRef id filename hash size => exact leaf.elim

inductive Fragment : Expr → Prop
  | lit {value : FormValue} : value.Leaf → Fragment (.lit value)
  | op {name : String} {op : Operator} {args : List Expr} : Operator.named name = some op →
      op.Takes args.length → (∀ arg ∈ args, Fragment arg) → Fragment (.op name args)

variable (functions : Context → String → Except Failure (List Value → Except Failure Value))
  (functions' : Context → String → List Value → Except Failure Value)
  (resolve resolve' : Context → String → Except Failure Value) (ctx : Context)

mutual

def Meets : Expr → Prop
  | .op name args =>
    match Operator.named name with
    | none => True
    | some .cond => MeetsIf args
    | some op =>
      MeetsAll args ∧ ∀ values, Reference.evaluateAll functions resolve ctx args = .ok values → ¬ Departs op values
  | .lit _ | .ref _ | .call _ _ => True

def MeetsAll : List Expr → Prop
  | [] => True
  | arg :: rest => Meets arg ∧ ((∃ value, Reference.evaluate functions resolve ctx arg = .ok value) → MeetsAll rest)

def MeetsIf : List Expr → Prop
  | cond :: yes :: no :: _ =>
    Meets cond ∧ (Reference.evaluate functions resolve ctx cond = .ok (.bool true) → Meets yes) ∧
      (Reference.evaluate functions resolve ctx cond = .ok (.bool false) → Meets no)
  | _ => True

end

def Together (e : Expr) : Prop :=
  Reference.evaluate functions resolve ctx e = Evaluator.evaluate functions' resolve' ctx e ∧
    Fine (Evaluator.evaluate functions' resolve' ctx e)

def FineAll (count : ℕ) : Except Failure (List Value) → Prop
  | .ok values => values.length = count ∧ ∀ value ∈ values, value.Proper
  | .error failure => failure = .overflow

variable {functions functions' resolve resolve' ctx}

theorem evaluateAll_together {args : List Expr}
    (each : ∀ arg ∈ args, Meets functions resolve ctx arg → Together functions functions' resolve resolve' ctx arg)
    (meets : MeetsAll functions resolve ctx args) :
    Reference.evaluateAll functions resolve ctx args = Evaluator.evaluateAll functions' resolve' ctx args ∧
      FineAll args.length (Evaluator.evaluateAll functions' resolve' ctx args) := by
  induction args with
  | nil => exact ⟨by rw [Reference.evaluateAll, Evaluator.evaluateAll], by rw [Evaluator.evaluateAll]; simp [FineAll]⟩
  | cons arg rest ih =>
    rw [MeetsAll] at meets
    obtain ⟨same, fine⟩ := each arg List.mem_cons_self meets.1
    rw [Reference.evaluateAll, Evaluator.evaluateAll]
    cases outcome : Evaluator.evaluate functions' resolve' ctx arg with
    | error failure =>
      rw [same, outcome]
      rw [outcome] at fine
      exact ⟨rfl, fine⟩
    | ok value =>
      obtain ⟨sameRest, fineRest⟩ :=
        ih (fun arg member => each arg (List.mem_cons_of_mem _ member)) (meets.2 ⟨value, by rw [same, outcome]⟩)
      rw [same, outcome, sameRest]
      rw [outcome] at fine
      cases others : Evaluator.evaluateAll functions' resolve' ctx rest with
      | error failure =>
        rw [others] at fineRest
        exact ⟨rfl, fineRest⟩
      | ok values =>
        rw [others] at fineRest
        refine ⟨rfl, ?_, ?_⟩
        · simp [fineRest.1]
        · intro item member
          rcases List.mem_cons.mp member with rfl | later
          · exact fine
          · exact fineRest.2 item later

theorem reference_op {name : String} {op : Operator} (named : Operator.named name = some op) (other : op ≠ .cond)
    {args : List Expr} (takes : op.Takes args.length) :
    Reference.evaluate functions resolve ctx (.op name args) =
      Reference.evaluateAll functions resolve ctx args >>= Reference.operate op := by
  have one {apply : Value → Value} (single : args.length = 1)
      (applied : ∀ a, Reference.operate op [a] = .ok (apply a)) :
      (do return apply (← Reference.evaluateFirst functions resolve ctx args)) =
        Reference.evaluateAll functions resolve ctx args >>= Reference.operate op := by
    obtain ⟨a, rfl⟩ := List.length_eq_one_iff.mp single
    simp only [Reference.evaluateFirst, Reference.evaluateAll]
    cases Reference.evaluate functions resolve ctx a with
    | error failure => rfl
    | ok value => exact (applied value).symm
  have two (pair : args.length = 2) (applied : ∀ a b, Reference.operate op [a, b] = Reference.binary op a b) :
      (Reference.evaluatePair functions resolve ctx args >>= fun pair => Reference.binary op pair.1 pair.2) =
        Reference.evaluateAll functions resolve ctx args >>= Reference.operate op := by
    obtain ⟨a, b, rfl⟩ := List.length_eq_two.mp pair
    simp only [Reference.evaluatePair, Reference.evaluateAll]
    cases Reference.evaluate functions resolve ctx a with
    | error failure => rfl
    | ok x =>
      cases Reference.evaluate functions resolve ctx b with
      | error failure => rfl
      | ok y => exact (applied x y).symm
  rw [Reference.evaluate, named]
  cases op with
  | cond => exact absurd rfl other
  | and => cases Reference.evaluateAll functions resolve ctx args <;> rfl
  | or => cases Reference.evaluateAll functions resolve ctx args <;> rfl
  | not => exact one takes fun _ => rfl
  | neg => exact one takes fun _ => rfl
  | _ => exact two takes fun _ _ => rfl

theorem device_op {name : String} {op : Operator} (named : Operator.named name = some op) (other : op ≠ .cond)
    (args : List Expr) :
    Evaluator.evaluate functions' resolve' ctx (.op name args) =
      Evaluator.evaluateAll functions' resolve' ctx args >>= Evaluator.operate op := by
  have notIf : name ≠ "if" := by
    rintro rfl
    have first : Operator.named "if" = some .cond := by decide
    exact other (Option.some.inj (named.symm.trans first))
  rw [Evaluator.evaluate, if_neg notIf, named]

theorem reference_if {name : String} (named : Operator.named name = some .cond) (args : List Expr) :
    Reference.evaluate functions resolve ctx (.op name args) = Reference.evaluateIf functions resolve ctx args := by
  rw [Reference.evaluate, named]

theorem device_if {name : String} (named : Operator.named name = some .cond) (args : List Expr) :
    Evaluator.evaluate functions' resolve' ctx (.op name args) =
      Evaluator.evaluateIf functions' resolve' ctx args := by
  have isIf : name = "if" := by
    unfold Operator.named Operator.names at named
    simp only [List.lookup_cons] at named
    split at named
    · rename_i same
      exact eq_of_beq same
    · simp only [List.lookup_cons, List.lookup_nil] at named
      repeat' split at named
      all_goals cases named
  rw [Evaluator.evaluate, if_pos isIf]

theorem if_together {cond yes no : Expr}
    (each : ∀ arg ∈ [cond, yes, no], Meets functions resolve ctx arg →
      Together functions functions' resolve resolve' ctx arg)
    (meets : MeetsIf functions resolve ctx [cond, yes, no]) :
    Reference.evaluateIf functions resolve ctx [cond, yes, no] =
        Evaluator.evaluateIf functions' resolve' ctx [cond, yes, no] ∧
      Fine (Evaluator.evaluateIf functions' resolve' ctx [cond, yes, no]) := by
  rw [MeetsIf] at meets
  obtain ⟨meetsCond, meetsYes, meetsNo⟩ := meets
  obtain ⟨same, fine⟩ := each cond (by simp) meetsCond
  rw [Reference.evaluateIf, Evaluator.evaluateIf]
  rw [same] at meetsYes meetsNo ⊢
  cases outcome : Evaluator.evaluate functions' resolve' ctx cond with
  | error failure =>
    rw [outcome] at fine
    exact ⟨rfl, fine⟩
  | ok value =>
    cases value with
    | bool truth =>
      cases truth with
      | true => exact each yes (by simp) (meetsYes outcome)
      | false => exact each no (by simp) (meetsNo outcome)
    | _ => exact ⟨rfl, trivial⟩

theorem meets_op {name : String} {op : Operator} (named : Operator.named name = some op) (other : op ≠ .cond)
    {args : List Expr} : Meets functions resolve ctx (.op name args) ↔
      MeetsAll functions resolve ctx args ∧
        ∀ values, Reference.evaluateAll functions resolve ctx args = .ok values → ¬ Departs op values := by
  rw [Meets, named]
  cases op with
  | cond => exact absurd rfl other
  | _ => exact Iff.rfl

theorem evaluate_together {e : Expr} (fragment : Fragment e) (meets : Meets functions resolve ctx e) :
    Together functions functions' resolve resolve' ctx e := by
  induction fragment with
  | lit leaf =>
    unfold Together
    rw [Reference.evaluate, Evaluator.evaluate]
    exact ⟨rfl, ofForm_proper leaf⟩
  | @op name op args named takes parts ih =>
    unfold Together
    by_cases other : op = .cond
    · subst other
      obtain ⟨cond, yes, no, rfl⟩ := List.length_eq_three.mp takes
      rw [Meets, named] at meets
      rw [reference_if named, device_if named]
      exact if_together ih meets
    · obtain ⟨meetsArgs, faithful⟩ := (meets_op named other).mp meets
      obtain ⟨same, fine⟩ := evaluateAll_together ih meetsArgs
      rw [reference_op named other takes, device_op named other]
      rw [same] at faithful ⊢
      cases outcome : Evaluator.evaluateAll functions' resolve' ctx args with
      | error failure =>
        rw [outcome] at fine
        exact ⟨rfl, fine⟩
      | ok values =>
        rw [outcome] at fine
        have takesValues : op.Takes values.length := fine.1.symm ▸ takes
        exact (settled other takesValues fine.2).together (faithful values outcome)

theorem sameOutcome_of_eq {outcome : Except Failure Value} (fine : Fine outcome) : SameOutcome outcome outcome := by
  cases outcome with
  | error failure =>
    rw [show failure = .overflow from fine]
    trivial
  | ok value => cases value <;> first | rfl | exact Or.inl rfl

end Trees

section Engines

variable (functions : Context → String → Except Failure (List Value → Except Failure Value))
  (functions' : Context → String → List Value → Except Failure Value)
  (resolve resolve' : Context → String → Except Failure Value) (ctx : Context)

/-- The two evaluators come to the same outcome on a tree when no operator that is reached departs; and where
the operands of an operator are settled so, it is the operator that decides. -/
theorem engines_agree :
    (∀ e, Fragment e → Meets functions resolve ctx e →
      SameOutcome (Reference.evaluate functions resolve ctx e) (Evaluator.evaluate functions' resolve' ctx e)) ∧
    ∀ name op args values, Fragment (.op name args) → Operator.named name = some op → op ≠ .cond →
      MeetsAll functions resolve ctx args → Reference.evaluateAll functions resolve ctx args = .ok values →
      (SameOutcome (Reference.evaluate functions resolve ctx (.op name args))
          (Evaluator.evaluate functions' resolve' ctx (.op name args)) ↔
        ¬ Departs op values ∨ Fractional op values) := by
  constructor
  · intro e fragment meets
    obtain ⟨same, fine⟩ := @evaluate_together functions functions' resolve resolve' ctx e fragment meets
    rw [same]
    exact sameOutcome_of_eq fine
  · intro name op args values fragment named other meets evaluated
    cases fragment with
    | @op _ op' _ named' takes parts =>
      obtain rfl : op = op' := Option.some.inj (named.symm.trans named')
      obtain ⟨same, fine⟩ := @evaluateAll_together functions functions' resolve resolve' ctx args
        (fun arg member => evaluate_together (parts arg member)) meets
      rw [reference_op named other takes, device_op named other, ← same, evaluated]
      rw [← same, evaluated] at fine
      have decided := settled other (fine.1.symm ▸ takes) fine.2
      show SameOutcome (Reference.operate op values) (Evaluator.operate op values) ↔ _
      by_cases departs : Departs op values
      · rw [decided.apart departs]
        simp [departs]
      · obtain ⟨equal, fineOutcome⟩ := decided.together departs
        rw [equal]
        simp [departs, sameOutcome_of_eq fineOutcome]

end Engines

def bare : Context where
  values := fun _ => none
  today := ""
  now := ""

def noFunctions (α : Type) : Context → String → Except Failure α :=
  fun _ fn => .error (.compile ("unknown function: " ++ fn))

def noCalls : Context → String → List Value → Except Failure Value := fun ctx fn _ => noFunctions Value ctx fn

def noReferences : Context → String → Except Failure Value :=
  fun _ path => .error (.compile ("unresolvable reference: " ++ path))

/-- `dividend mod 3`. -/
def remainderTree (dividend : Int64) : Expr := .op "mod" [.lit (.integer dividend), .lit (.integer 3)]

theorem remainderTree_fragment (dividend : Int64) : Fragment (remainderTree dividend) := by
  refine @Fragment.op _ .mod _ (by decide) rfl ?_
  intro arg member
  simp only [List.mem_cons, List.not_mem_nil, or_false] at member
  rcases member with rfl | rfl <;> exact Fragment.lit trivial

theorem remainderTree_meets : Meets (noFunctions _) noReferences bare (remainderTree 7) := by
  refine (meets_op (show Operator.named "mod" = some .mod by decide) Operator.noConfusion).mpr ⟨?_, ?_⟩
  · simp [MeetsAll, Meets]
  · intro values evaluated
    simp only [Reference.evaluateAll, Reference.evaluate] at evaluated
    obtain rfl : [Value.integer 7, Value.integer 3] = values := Except.ok.inj evaluated
    simp [Departs, Reference.number]

theorem seven_mod_three :
    SameOutcome (Reference.evaluate (noFunctions _) noReferences bare (remainderTree 7))
      (Evaluator.evaluate noCalls noReferences bare (remainderTree 7)) :=
  (engines_agree (noFunctions _) noCalls noReferences noReferences bare).1 (remainderTree 7)
    (remainderTree_fragment 7) remainderTree_meets

/-- `-7 mod 3` is 2 to the reference engine and -1 to the device's. -/
theorem minus_seven_mod_three :
    ¬ ∀ e, Fragment e → SameOutcome (Reference.evaluate (noFunctions _) noReferences bare e)
      (Evaluator.evaluate noCalls noReferences bare e) := by
  intro always
  have same := always (remainderTree (-7)) (remainderTree_fragment (-7))
  have reference : Reference.evaluate (noFunctions _) noReferences bare (remainderTree (-7)) = .ok (.integer 2) := by
    have takes : Operator.Takes .mod [Expr.lit (.integer (-7)), .lit (.integer 3)].length := rfl
    rw [remainderTree, reference_op (show Operator.named "mod" = some .mod by decide) Operator.noConfusion takes]
    simp only [Reference.evaluateAll, Reference.evaluate]
    show Reference.mod (.integer (-7)) (.integer 3) = _
    simp [Reference.mod, Reference.number]
  have device : Evaluator.evaluate noCalls noReferences bare (remainderTree (-7)) = .ok (.integer (-1)) := by
    rw [remainderTree, device_op (show Operator.named "mod" = some .mod by decide) Operator.noConfusion]
    simp only [Evaluator.evaluateAll, Evaluator.evaluate]
    show Except.ok (Evaluator.mod (.integer (-7)) (.integer 3)) = _
    simp [Evaluator.mod]
  rw [reference, device] at same
  exact absurd (Value.integer.inj same) (by decide)

end DataCollectionLab.Form
