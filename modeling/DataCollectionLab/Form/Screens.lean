import DataCollectionLab.Form.Instance
import Mathlib.Data.List.AList

/-!
The screens of a form, and the way through them. The plan of screens is computed from the document by each
engine; the navigation over it is written once, over what the engines do each in its own way.
-/

namespace DataCollectionLab.Form

inductive ScreenKind where
  | questions | repeated
  deriving DecidableEq, Repr

structure FormScreen where
  index : ℕ
  kind : ScreenKind
  /-- The field-list group it was made of. -/
  groupId : Option String
  sectionId : Option String
  questionIds : List String
  /-- The repeat whose instances it lists. -/
  repeatId : Option String := none
  deriving DecidableEq, Repr

abbrev InstancePlans := AList fun _ : String => List FormScreen

structure ScreenPlan where
  screens : List FormScreen
  instancePlans : InstancePlans

/-- Where the enumerator is: inside an instance, its id and the index in the plan of its repeat are given. -/
structure Position where
  screen : ℤ
  instanceId : Option String := none
  instanceScreen : Option ℤ := none
  deriving DecidableEq, Repr

namespace Reference

section Plan

mutual

/-- `collect_questions`, of one node. -/
def collectQuestion (out : List String) : Node → List String
  | .question node => if node.calculate.isNone then out ++ [node.id] else out
  | .group _ children => collectQuestions out children
  | .repeated .. => out

def collectQuestions (out : List String) : List Node → List String
  | [] => out
  | node :: rest => collectQuestions (collectQuestion out node) rest

end

mutual

/-- `walk`, of one node: the screens so far and the plans of the repeats. -/
def walkScreen (sectionId : Option String) (out : List FormScreen) (plans : InstancePlans) :
    Node → List FormScreen × InstancePlans
  | .question node =>
    if node.calculate.isNone then
      (out ++ [⟨out.length, .questions, none, sectionId, [node.id], none⟩], plans)
    else (out, plans)
  | .group node children =>
    if node.appearance = some "field-list" then
      let questions := collectQuestions [] children
      if questions ≠ [] then (out ++ [⟨out.length, .questions, some node.id, sectionId, questions, none⟩], plans)
      else (out, plans)
    else walkScreens (some node.id) out plans children
  | .repeated node children =>
    let inner := walkScreens (some node.id) [] plans children
    (out ++ [⟨out.length, .repeated, none, sectionId, [], some node.id⟩], inner.2.insert node.id inner.1)

def walkScreens (sectionId : Option String) (out : List FormScreen) (plans : InstancePlans) :
    List Node → List FormScreen × InstancePlans
  | [] => (out, plans)
  | node :: rest =>
    let walked := walkScreen sectionId out plans node
    walkScreens sectionId walked.1 walked.2 rest

end

def buildScreenPlan (children : List Node) : ScreenPlan :=
  let walked := walkScreens none [] ∅ children
  ⟨walked.1, walked.2⟩

end Plan

end Reference

namespace Device

section Plan

mutual

/-- `collectQuestions`, of one node. -/
def collectQuestion (out : List String) : Node → List String
  | .question node => if node.calculate = none then out ++ [node.id] else out
  | .group _ children => collectQuestions out children
  | .repeated .. => out

def collectQuestions (out : List String) : List Node → List String
  | [] => out
  | node :: rest => collectQuestions (collectQuestion out node) rest

end

mutual

/-- `walk`, of one node: the screens so far and the plans of the repeats. -/
def walkScreen (sectionId : Option String) (out : List FormScreen) (plans : InstancePlans) :
    Node → List FormScreen × InstancePlans
  | .question node =>
    let screen : FormScreen := ⟨out.length, .questions, none, sectionId, [node.id], none⟩
    (if node.calculate = none then out ++ [screen] else out, plans)
  | .group node children =>
    if node.appearance = some "field-list" then
      let questions := collectQuestions [] children
      let screen : FormScreen := ⟨out.length, .questions, some node.id, sectionId, questions, none⟩
      (if questions ≠ [] then out ++ [screen] else out, plans)
    else walkScreens (some node.id) out plans children
  | .repeated node children =>
    let screen : FormScreen := ⟨out.length, .repeated, none, sectionId, [], some node.id⟩
    let inner := walkScreens (some node.id) [] plans children
    (out ++ [screen], inner.2.insert node.id inner.1)

def walkScreens (sectionId : Option String) (out : List FormScreen) (plans : InstancePlans) :
    List Node → List FormScreen × InstancePlans
  | [] => (out, plans)
  | node :: rest =>
    let walked := walkScreen sectionId out plans node
    walkScreens sectionId walked.1 walked.2 rest

end

def buildScreenPlan (children : List Node) : ScreenPlan :=
  let walked := walkScreens none [] ∅ children
  ⟨walked.1, walked.2⟩

end Plan

end Device

/-- What the engines do each in its own way where they page through a form. -/
structure Pager where
  evaluate : Context → Expr → Except Failure Value
  /-- A plan at an index. -/
  screenAt : ScreenPlan → ℤ → Except Failure FormScreen
  /-- A repeat screen that names no repeat. -/
  unnamed : Except Failure Bool
  /-- The index of an open instance screen, which a list is compared with. -/
  opened : Option ℤ → List ℕ → Except Failure ℤ
  /-- An open instance of a screen that is not a repeat screen. -/
  misplaced : Failure

/-- `list[i]` counts a negative index from the end. -/
def Reference.pager (evaluate : Context → Expr → Except Failure Value) : Pager where
  evaluate := evaluate
  screenAt plan i :=
    let i := if i < 0 then plan.screens.length + i else i
    if i < 0 then .error (.raised "IndexError")
    else (plan.screens[i.toNat]?).elim (.error (.raised "IndexError")) .ok
  unnamed := .error (.raised "AssertionError")
  opened
    | some i, _ => .ok i
    | none, _ => .error (.raised "AssertionError")
  misplaced := .raised "AssertionError"

/-- `!!` is read once for each element that is compared. -/
def Device.pager (evaluate : Context → Expr → Except Failure Value) : Pager where
  evaluate := evaluate
  screenAt plan i :=
    if i < 0 then .error (.raised "IndexOutOfBoundsException")
    else (plan.screens[i.toNat]?).elim (.error (.raised "IndexOutOfBoundsException")) .ok
  unnamed := .ok false
  opened
    | some i, _ => .ok i
    | none, [] => .ok 0
    | none, _ :: _ => .error (.raised "NullPointerException")
  misplaced := .raised "NullPointerException"

section Relevance

variable (pager : Pager) (form : CompiledForm) (session : Session) (s : FormInstance) (plan : ScreenPlan)

def canAdd (rid : String) : Bool :=
  match form.repeat? rid with
  | none => false
  | some node =>
    if node.countExpr.isSome then false
    else if node.rowSource.any fun source => !source.allowAdd then false
    else node.maxInstances.all fun maximum => ((s.rows rid).length : ℤ) < maximum

def relevantAt (path : String) : Bool := (s.states path).any FieldState.relevant

def screenRelevant (screen : FormScreen) : Except Failure Bool :=
  match screen.kind with
  | .repeated =>
    match screen.repeatId with
    | none => pager.unnamed
    | some rid => do
      if ← containerRelevant pager.evaluate form session s rid then
        return 0 < (s.rows rid).length || canAdd form s rid
      else return false
  | .questions => .ok (screen.questionIds.any (relevantAt s))

def instanceScreenRelevant (screen : FormScreen) (rid iid : String) : Bool :=
  screen.questionIds.any fun qid => relevantAt s (instancePath rid iid qid)

def relevantInstanceScreens (rid iid : String) : List ℕ :=
  (((plan.instancePlans.lookup rid).getD []).filter fun screen => instanceScreenRelevant s screen rid iid).map
    FormScreen.index

end Relevance

section Navigation

variable (pager : Pager) (form : CompiledForm) (session : Session) (s : FormInstance) (plan : ScreenPlan)

def firstRelevant (among : FormScreen → Bool) : List FormScreen → Except Failure (Option ℕ)
  | [] => .ok none
  | screen :: rest => do
    if among screen then
      if ← screenRelevant pager form session s screen then return some screen.index
    firstRelevant among rest

def nextScreen (start : ℤ) : Except Failure (Option ℕ) :=
  firstRelevant pager form session s (fun screen => start < screen.index) plan.screens

def previousScreen (start : ℤ) : Except Failure (Option ℕ) :=
  firstRelevant pager form session s (fun screen => screen.index < start) plan.screens.reverse

def relevantScreens : Except Failure (List ℕ) := do
  let marked ← plan.screens.mapM fun screen => do
    return (screen.index, ← screenRelevant pager form session s screen)
  return (marked.filter Prod.snd).map Prod.fst

def repeatOf (i : ℤ) : Except Failure (Option String) := do
  let screen ← pager.screenAt plan i
  return if screen.kind = .repeated then screen.repeatId else none

def resolvePosition (position : Position) : Except Failure Position :=
  match position.instanceId with
  | none => .ok position
  | some iid => do
    match ← repeatOf pager plan position.screen with
    | none => return { screen := position.screen }
    | some rid => return if iid ∈ s.rows rid then position else { screen := position.screen }

def openScreens (position : Position) (iid : String) : Except Failure (List ℕ × ℤ) := do
  match ← repeatOf pager plan position.screen with
  | none => throw pager.misplaced
  | some rid =>
    let relevant := relevantInstanceScreens s plan rid iid
    return (relevant, ← pager.opened position.instanceScreen relevant)

def nextPosition (start : Position) : Except Failure (Option Position) := do
  let position ← resolvePosition pager s plan start
  match position.instanceId with
  | none => return (← nextScreen pager form session s plan position.screen).map fun (i : ℕ) => { screen := i }
  | some iid =>
    let (relevant, i) ← openScreens pager s plan position iid
    match relevant.find? fun (later : ℕ) => i < later with
    | some later => return some { position with instanceScreen := some (later : ℤ) }
    | none => return some { screen := position.screen }

def previousPosition (start : Position) : Except Failure (Option Position) := do
  let position ← resolvePosition pager s plan start
  match position.instanceId with
  | none => return (← previousScreen pager form session s plan position.screen).map fun (i : ℕ) => { screen := i }
  | some iid =>
    let (relevant, i) ← openScreens pager s plan position iid
    match (relevant.filter fun (earlier : ℕ) => earlier < i).getLast? with
    | some earlier => return some { position with instanceScreen := some (earlier : ℤ) }
    | none => return some { screen := position.screen }

def placeIn (relevant : List ℕ) (i : ℤ) : ℕ :=
  let indices := relevant.map fun (index : ℕ) => (index : ℤ)
  if i ∈ indices then indices.idxOf i + 1 else 0

def progress (position : Position) : Except Failure (ℕ × ℕ) := do
  let relevant ← relevantScreens pager form session s plan
  return (placeIn relevant position.screen, relevant.length)

/-- `instance_progress`: within the open instance, and across the instances. -/
def instanceProgress (start : Position) : Except Failure (Option ((ℕ × ℕ) × ℕ × ℕ)) := do
  let position ← resolvePosition pager s plan start
  match position.instanceId with
  | none => return none
  | some iid =>
    match ← repeatOf pager plan position.screen with
    | none => throw pager.misplaced
    | some rid =>
      let relevant := relevantInstanceScreens s plan rid iid
      return some ((position.instanceScreen.elim 0 (placeIn relevant), relevant.length),
        (s.rows rid).idxOf iid + 1, (s.rows rid).length)

def enterInstance (rid iid : String) : Except Failure Position :=
  match plan.screens.find? fun screen => screen.kind = .repeated ∧ screen.repeatId = some rid with
  | none => .error (.raised "KeyError")
  | some screen =>
    match relevantInstanceScreens s plan rid iid with
    | [] => .ok { screen := screen.index }
    | first :: _ => .ok { screen := screen.index, instanceId := some iid, instanceScreen := some (first : ℤ) }

end Navigation

section Finalisation

variable (s : FormInstance) (plan : ScreenPlan)

/-- An error of severity `error`. -/
def FieldError.blocks : FieldError → Bool
  | .required | .choice => true
  | .constraint _ severity => severity = "error"

/-- A field is among `blocking_fields`. -/
def blocking (path : String) : Bool :=
  (s.states path).any fun state => state.relevant && state.errors.any FieldError.blocks

def blockingInside (rid iid : String) : Option FormScreen :=
  ((plan.instancePlans.lookup rid).getD []).find? fun screen =>
    screen.questionIds.any fun qid => blocking s (instancePath rid iid qid)

/-- `first_blocking_position`, of one screen. -/
def blockingOn (screen : FormScreen) : Option Position :=
  match screen.kind, screen.repeatId with
  -- No plan has one: passed over, or asserted not to be.
  | .repeated, none => none
  | .repeated, some rid =>
    (s.rows rid).findSome? fun iid => (blockingInside s plan rid iid).map fun inner =>
      { screen := screen.index, instanceId := some iid, instanceScreen := some (inner.index : ℤ) }
  | .questions, _ =>
    if screen.questionIds.any (blocking s) then some { screen := screen.index } else none

def firstBlockingPosition : Option Position := plan.screens.findSome? (blockingOn s plan)

end Finalisation

end DataCollectionLab.Form
