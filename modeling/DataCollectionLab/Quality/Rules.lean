import DataCollectionLab.Sync.Store
import Mathlib.Data.List.Dedup
import Mathlib.Data.List.Sort

/-!
A project's quality rules and the flags they raise: what a rule says of a submission, and how a submission's
open flags are replaced by what the rules just said.
-/

namespace DataCollectionLab.Quality

open Sync

inductive Severity where
  | info | warning | error
  deriving DecidableEq, Repr

/-- One row of `quality_rule`. -/
structure QualityRule where
  id : String
  projectId : String
  /-- `none` applies the rule to every form of the project. -/
  formId : Option String
  name : String
  definition : Json
  severity : Severity
  enabled : Bool

/-- A rule as `evaluate_rules` takes it. -/
structure Rule where
  id : String
  name : String
  definition : Json
  severity : Severity
  path : Option String := none

inductive OutcomeKind where
  | violation | notEvaluated
  deriving DecidableEq, Repr

structure Outcome where
  rule : Rule
  outcome : OutcomeKind
  detail : Json

section References

mutual

def pathsRead : Json → List String
  | .obj fields =>
    (match fields.lookup "op", fields.lookup "path" with
      | some (.str "ref"), some (.str path) => [path]
      | _, _ => []) ++ pathsReadFields fields
  | .arr items => pathsReadAll items
  | .null | .bool _ | .int _ | .float _ | .str _ => []

def pathsReadAll : List Json → List String
  | [] => []
  | item :: rest => pathsRead item ++ pathsReadAll rest

def pathsReadFields : List (String × Json) → List String
  | [] => []
  | (_, value) :: rest => pathsRead value ++ pathsReadFields rest

end

mutual

/-- `_question_ids`, of one node. -/
def questionIdsOf : Json → List String
  | .obj fields =>
    (match fields.lookup "type", fields.lookup "id" with
      | some (.str "question"), some (.str id) => [id]
      | _, _ => []) ++ questionIdsUnder fields
  | _ => []

/-- The first field `children`. -/
def questionIdsUnder : List (String × Json) → List String
  | [] => []
  | (key, value) :: rest =>
    if key = "children" then
      match value with
      | .arr nodes => questionIds nodes
      | _ => []
    else questionIdsUnder rest

def questionIds : List Json → List String
  | [] => []
  | node :: rest => questionIdsOf node ++ questionIds rest

end

end References

/-- What `evaluate` came to: `held` is null or true, or anything else, or an error of the evaluator. -/
inductive Verdict where
  | holds | fails
  | invalid (message : String)

/-- The expression engine: a rule's definition, on answers and at a moment; what it does not catch is the caller's. -/
structure Engine where
  evaluate : Json → (String → Option Json) → Timestamp → Except String Verdict
  /-- `check_definition`, by the message of its refusal. -/
  refuses : Json → Option String

section Evaluate

variable (engine : Engine) (values : Dict Json) (unreadable : Dict String) (knownPaths : List String) (moment : Timestamp)

def resolved (path : String) : Option Json :=
  match values.lookup path with
  | some value => some value
  | none => if path ∈ knownPaths then some .null else none

/-- `sorted` of a set of paths. -/
def sortedPaths (paths : List String) : List String := paths.dedup.insertionSort (· ≤ ·)

def detailOf (reason : String) (more : List (String × Json)) : Json := .obj (("reason", .str reason) :: more)

/-- One rule; `none` is a rule that holds. -/
def evaluateRule (rule : Rule) : Except String (Option Outcome) := do
  let reads := pathsRead rule.definition
  let unknown := sortedPaths (reads.filter fun path =>
    (resolved values knownPaths path).isNone && (unreadable.lookup path).isNone)
  if unknown ≠ [] then
    return some ⟨rule, .notEvaluated, detailOf "unknown_path" [("paths", .arr (unknown.map .str))]⟩
  let blind := sortedPaths (reads.filter fun path => (unreadable.lookup path).isSome)
  if blind ≠ [] then
    return some ⟨rule, .notEvaluated, detailOf "encrypted" [("paths", .arr (blind.map .str))]⟩
  match ← engine.evaluate rule.definition (resolved values knownPaths) moment with
  | .invalid message => return some ⟨rule, .notEvaluated, detailOf "invalid" [("message", .str message)]⟩
  | .holds => return none
  | .fails => return some ⟨rule, .violation, detailOf "failed" []⟩

def evaluateRules (rules : List Rule) : Except String (List Outcome) := do
  return (← rules.mapM (evaluateRule engine values unreadable knownPaths moment)).reduceOption

end Evaluate

/-- One row of `quality_flag`. -/
structure Flag where
  submissionId : String
  ruleId : String
  path : Option String
  severity : Severity
  outcome : OutcomeKind
  ruleName : String
  ruleDefinition : Json
  detail : Json
  resolvedAt : Option Timestamp

/-- A server with its rules and flags, and the document of each form version. -/
structure World where
  db : Db
  irs : Dict Json
  rules : List QualityRule
  flags : List Flag

/-- The order of `rules_for`. -/
def ruleLe (a b : QualityRule) : Prop := a.name < b.name ∨ a.name = b.name ∧ a.id ≤ b.id

instance : DecidableRel ruleLe := fun a b =>
  inferInstanceAs (Decidable (a.name < b.name ∨ a.name = b.name ∧ a.id ≤ b.id))

def QualityRule.asked (rule : QualityRule) : Rule := ⟨rule.id, rule.name, rule.definition, rule.severity, none⟩

namespace World

variable (world : World)

/-- `rules_for`. Who is shown a submission is shown its project, and with it the rules. -/
def rulesFor (submissionId : String) : List Rule :=
  match world.db.submissions.lookup submissionId with
  | none => []
  | some submission =>
    match world.db.formVersions.lookup submission.formVersionId with
    | none => []
    | some version =>
      ((world.rules.filter fun rule => rule.projectId = submission.projectId ∧ rule.enabled ∧
        (rule.formId = none ∨ rule.formId = some version.formId)).insertionSort ruleLe).map QualityRule.asked

def declaredPaths (submissionId : String) : List String :=
  match (world.db.submissions.lookup submissionId).bind fun submission =>
      world.irs.lookup submission.formVersionId with
  | some (.obj fields) => questionIdsUnder fields
  | _ => []

end World

def Flag.openOn (submissionId : String) (flag : Flag) : Bool :=
  flag.submissionId = submissionId && flag.resolvedAt.isNone

def Outcome.flag (submissionId : String) (outcome : Outcome) : Flag where
  submissionId := submissionId
  ruleId := outcome.rule.id
  path := outcome.rule.path
  severity := outcome.rule.severity
  outcome := outcome.outcome
  ruleName := outcome.rule.name
  ruleDefinition := outcome.rule.definition
  detail := outcome.detail
  resolvedAt := none

def record (flags : List Flag) (submissionId : String) (outcomes : List Outcome) (now : Timestamp) : List Flag :=
  (flags.map fun flag => if flag.openOn submissionId then { flag with resolvedAt := some now } else flag) ++
    outcomes.map (Outcome.flag submissionId)

def evaluateAndRecord (engine : Engine) (world : World) (submissionId : String) (values : Dict Json)
    (unreadable : Dict String) (moment now : Timestamp) : Except String World :=
  match world.rulesFor submissionId with
  | [] => .ok world
  | rules => do
    let outcomes ← evaluateRules engine values unreadable (world.declaredPaths submissionId) moment rules
    return { world with flags := record world.flags submissionId outcomes now }

section Managing

/-- `QualityRuleIn`. -/
structure RuleRequest where
  name : String
  definition : Json
  severity : Severity := .warning
  enabled : Bool := true
  formId : Option String := none

inductive RuleRefusal where
  | invalidExpression (message : String)
  | notFound

variable (engine : Engine) (world : World)

/-- `create_rule`, under a fresh id. -/
def createRule (ruleId projectId : String) (request : RuleRequest) : Except RuleRefusal World :=
  match engine.refuses request.definition with
  | some message => .error (.invalidExpression message)
  | none => .ok { world with rules := world.rules ++
      [⟨ruleId, projectId, request.formId, request.name, request.definition, request.severity, request.enabled⟩] }

/-- `update_rule`, of a rule that the session is shown. -/
def updateRule (seesProject : String → Bool) (ruleId : String) (request : RuleRequest) : Except RuleRefusal World :=
  match engine.refuses request.definition with
  | some message => .error (.invalidExpression message)
  | none =>
    if world.rules.any fun rule => rule.id = ruleId && seesProject rule.projectId then
      .ok { world with rules := world.rules.map fun rule =>
        if rule.id = ruleId ∧ seesProject rule.projectId then
          { rule with name := request.name, definition := request.definition, severity := request.severity,
                      enabled := request.enabled, formId := request.formId }
        else rule }
    else .error .notFound

end Managing

end DataCollectionLab.Quality
