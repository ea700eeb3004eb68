import DataCollectionLab.Form.Functions
import DataCollectionLab.Form.Resolve
import DataCollectionLab.Quality.Rules

/-!
A rule's definition evaluated as the JSON it is, on a flat map of answers with no instances. Its value depends on the
answers at the paths it names and on no other, so a rule that names no unreadable path is decided by what can be read.
A rule that names a repeat with its field is not evaluated at all.
-/

namespace DataCollectionLab.Quality

open Form (Value Failure Operator Library Context)
open Form.Reference (boolean binary call resolve)

section Evaluate

structure Python where
  repr : Json → String
  value : Json → Value

/-- `args` of a node: what each item comes to. A dict can be walked, by its keys, and not indexed by a number. -/
structure Args where
  items : List (Except Failure Value)
  indexed : Bool := true

def Args.at (args : Args) (n : ℕ) : Except Failure Value :=
  if args.indexed then args.items[n]?.getD (.error (.raised "IndexError")) else .error (.raised "KeyError")

def Args.all (args : Args) : Except Failure (List Value) := args.items.mapM id

/-- The operators of `evaluate`, `lit`, `ref` and `call` apart. -/
def operate (op : Operator) (args : Args) : Except Failure Value :=
  match op with
  | .cond => do
    match boolean (← args.at 0) with
    | none => return .null
    | some true => args.at 1
    | some false => args.at 2
  | .and => do return Form.Reference.and (← args.all)
  | .or => do return Form.Reference.or (← args.all)
  | .not => do return Form.Reference.not (← args.at 0)
  | .neg => do return Form.Reference.neg (← args.at 0)
  | op => do
    let a ← args.at 0
    let b ← args.at 1
    binary op a b

variable (lib : Library) (python : Python) (ctx : Context)

def malformed (node : Json) : Failure := .compile ("malformed expression node: " ++ python.repr node)

/-- One node, over what its arguments come to; `none` where it has no `args`. -/
def evaluateNode (fields : List (String × Json)) (args : Option (Except Failure Args)) : Except Failure Value :=
  match fields.lookup "op" with
  | none => .error (malformed python (.obj fields))
  | some (.str "lit") =>
    match fields.lookup "value" with
    | some value => .ok (python.value value)
    | none => .error (.raised "KeyError")
  | some (.str "ref") =>
    match fields.lookup "path" with
    | some (.str path) => resolve ctx path
    | some _ => .error (.raised "AttributeError")
    | none => .error (.raised "KeyError")
  | some (.str "call") =>
    match fields.lookup "fn" with
    | some (.str fn) => do
      let impl ← call lib ctx fn
      let args ← args.getD (.ok ⟨[], true⟩)
      impl (← args.all)
    | some (.arr _) | some (.obj _) => .error (.raised "TypeError")
    | some fn => .error (.compile ("unknown function: " ++ python.repr fn))
    | none => .error (.raised "KeyError")
  | some (.str name) =>
    match Operator.named name with
    | none => .error (.compile ("unknown operator: " ++ name))
    | some op => do operate op (← args.getD (.error (.raised "KeyError")))
  | some (.arr _) | some (.obj _) => .error (.raised "TypeError")
  | some op => .error (.compile ("unknown operator: " ++ python.repr op))

mutual

/-- `evaluate`. A node is evaluated wherever it stands, and its failure counts where an operator asks for it. -/
def evaluate : Json → Except Failure Value
  | .obj fields => evaluateNode lib python ctx fields (argsUnder fields)
  | node => .error (malformed python node)

def argsUnder : List (String × Json) → Option (Except Failure Args)
  | [] => none
  | (key, value) :: rest => if key = "args" then some (argsOf value) else argsUnder rest

def argsOf : Json → Except Failure Args
  | .arr items => .ok ⟨evaluateAll items, true⟩
  | .str text => .ok ⟨text.toList.map fun c => .error (malformed python (.str (String.singleton c))), true⟩
  | .obj fields => .ok ⟨fields.map fun field => .error (malformed python (.str field.1)), false⟩
  | .null | .bool _ | .int _ | .float _ => .error (.raised "TypeError")

def evaluateAll : List Json → List (Except Failure Value)
  | [] => []
  | item :: rest => evaluate item :: evaluateAll rest

end

end Evaluate

/-- `today` and `now` of a moment, as texts. -/
structure MomentTexts where
  today : Timestamp → String
  now : Timestamp → String

section Engines

variable (lib : Library) (python : Python) (clock : MomentTexts)

/-- The context that `evaluate_rules` builds. -/
def contextOf (resolved : String → Option Json) (moment : Timestamp) : Context where
  values path := (resolved path).map python.value
  today := clock.today moment
  now := clock.now moment

/-- What a value or a failure is for `evaluate_rules`. -/
def verdictOf : Except Failure Value → Except String Verdict
  | .ok .null | .ok (.bool true) => .ok .holds
  | .ok _ => .ok .fails
  | .error .overflow => .ok (.invalid "integer overflow")
  | .error .boundary => .ok (.invalid "expected boolean at boundary")
  | .error (.compile message) => .ok (.invalid message)
  | .error (.raised name) => .error name

def reference (checkedAt : Timestamp) : Engine where
  evaluate definition resolved moment := verdictOf (evaluate lib python (contextOf python clock resolved moment) definition)
  refuses definition :=
    match evaluate lib python (contextOf python clock (fun _ => some .null) checkedAt) definition with
    | .error (.compile message) | .error (.raised message) => some message
    | _ => none

end Engines

section Locality

variable {lib : Library} {python : Python} {clock : MomentTexts} {resolved resolved' : String → Option Json} {moment : Timestamp}

theorem resolve_congr {path : String} (same : resolved path = resolved' path) :
    resolve (contextOf python clock resolved moment) path = resolve (contextOf python clock resolved' moment) path := by
  have bare : Form.Reference.resolveBare (contextOf python clock resolved moment) path =
      Form.Reference.resolveBare (contextOf python clock resolved' moment) path := by
    simp [Form.Reference.resolveBare, contextOf, same]
  unfold resolve
  cases Form.rowPath path with
  | some column => rfl
  | none =>
    dsimp only
    split
    · rfl
    · split
      · rfl
      · split
        · split
          · rfl
          · rename_i index suffix _
            unfold Form.Reference.resolveIndexed
            split
            · rfl
            · split
              · rfl
              · simp [contextOf]
        · exact bare

mutual

theorem evaluate_congr (node : Json) (same : ∀ path ∈ pathsRead node, resolved path = resolved' path) :
    evaluate lib python (contextOf python clock resolved moment) node =
      evaluate lib python (contextOf python clock resolved' moment) node := by
  cases node with
  | obj fields =>
    have args := argsUnder_congr fields fun path member => same path (by
      rw [pathsRead]
      exact List.mem_append_right _ member)
    simp only [evaluate, args]
    unfold evaluateNode
    split
    · rfl
    · rfl
    · rename_i op
      split
      · rename_i path named
        apply resolve_congr
        apply same
        simp [pathsRead, op, named]
      · rfl
      · rfl
    · rfl
    · rfl
    · rfl
    · rfl
    · rfl
  | _ => rfl

theorem argsUnder_congr (fields : List (String × Json)) (same : ∀ path ∈ pathsReadFields fields, resolved path = resolved' path) :
    argsUnder lib python (contextOf python clock resolved moment) fields =
      argsUnder lib python (contextOf python clock resolved' moment) fields := by
  cases fields with
  | nil => rfl
  | cons field rest =>
    obtain ⟨key, value⟩ := field
    have here := argsOf_congr value fun path member => same path (by
      rw [pathsReadFields]
      exact List.mem_append_left _ member)
    have later := argsUnder_congr rest fun path member => same path (by
      rw [pathsReadFields]
      exact List.mem_append_right _ member)
    simp only [argsUnder, here, later]

theorem argsOf_congr (value : Json) (same : ∀ path ∈ pathsRead value, resolved path = resolved' path) :
    argsOf lib python (contextOf python clock resolved moment) value =
      argsOf lib python (contextOf python clock resolved' moment) value := by
  cases value with
  | arr items =>
    have all := evaluateAll_congr items fun path member => same path (by rwa [pathsRead])
    simp only [argsOf, all]
  | _ => rfl

theorem evaluateAll_congr (items : List Json) (same : ∀ path ∈ pathsReadAll items, resolved path = resolved' path) :
    evaluateAll lib python (contextOf python clock resolved moment) items =
      evaluateAll lib python (contextOf python clock resolved' moment) items := by
  cases items with
  | nil => rfl
  | cons item rest =>
    have here := evaluate_congr item fun path member => same path (by
      rw [pathsReadAll]
      exact List.mem_append_left _ member)
    have later := evaluateAll_congr rest fun path member => same path (by
      rw [pathsReadAll]
      exact List.mem_append_right _ member)
    simp only [evaluateAll, here, later]

end

end Locality

structure Field where
  repeatId : Option String
  id : String

section Fields

def repeatOf (outer : Option String) (node : List (String × Json)) : Option String :=
  match node.lookup "type", node.lookup "id" with
  | some (.str "repeat"), some (.str id) => some id
  | _, _ => outer

mutual

def fieldsOf (outer : Option String) : Json → List Field
  | .obj node =>
    (match node.lookup "type", node.lookup "id" with
      | some (.str "question"), some (.str id) => [id]
      | _, _ => []).map (Field.mk outer) ++ fieldsUnder (repeatOf outer node) node
  | _ => []

def fieldsUnder (outer : Option String) : List (String × Json) → List Field
  | [] => []
  | (key, value) :: rest =>
    if key = "children" then
      match value with
      | .arr nodes => fieldsAll outer nodes
      | _ => []
    else fieldsUnder outer rest

def fieldsAll (outer : Option String) : List Json → List Field
  | [] => []
  | node :: rest => fieldsOf outer node ++ fieldsAll outer rest

end

mutual

theorem fieldsOf_ids (outer : Option String) (node : Json) : (fieldsOf outer node).map (·.id) = questionIdsOf node := by
  cases node with
  | obj node =>
    rw [fieldsOf, questionIdsOf, List.map_append, fieldsUnder_ids (repeatOf outer node) node]
    have heads : ∀ ids : List String, (ids.map (Field.mk outer)).map (·.id) = ids := by
      intro ids
      rw [List.map_map]
      exact List.map_id ids
    exact congrArg (fun ids => ids ++ questionIdsUnder node) (heads _)
  | _ => rfl

theorem fieldsUnder_ids (outer : Option String) (node : List (String × Json)) :
    (fieldsUnder outer node).map (·.id) = questionIdsUnder node := by
  cases node with
  | nil => rfl
  | cons field rest =>
    obtain ⟨key, value⟩ := field
    unfold fieldsUnder questionIdsUnder
    by_cases children : key = "children"
    · rw [if_pos children, if_pos children]
      cases value with
      | arr nodes => exact fieldsAll_ids outer nodes
      | _ => rfl
    · rw [if_neg children, if_neg children]
      exact fieldsUnder_ids outer rest

theorem fieldsAll_ids (outer : Option String) (nodes : List Json) :
    (fieldsAll outer nodes).map (·.id) = questionIds nodes := by
  cases nodes with
  | nil => rfl
  | cons node rest => rw [fieldsAll, questionIds, List.map_append, fieldsOf_ids outer node, fieldsAll_ids outer rest]

end

variable (fields : List Field)

/-- `members[].age` or `members[2].age`, of a question in a repeat. -/
def Qualified (path : String) : Prop :=
  ∃ rid fid index, ⟨some rid, fid⟩ ∈ fields ∧ index.toList.all Char.isDigit = true ∧ path = Form.instancePath rid index fid

def OfForm (path : String) : Prop := path ∈ fields.map (·.id) ∨ Qualified fields path

inductive Names (path : String) : String → Prop
  | itself : Names path path
  | bare {rid iid : String} : ⟨some rid, path⟩ ∈ fields → Names path (Form.instancePath rid iid path)
  | within {rid fid index iid : String} : path = Form.instancePath rid index fid → Names path (Form.instancePath rid iid fid)

end Fields

section Reports

variable (engine : Engine) (values : Dict Json) (unreadable : Dict String) (knownPaths : List String) (moment : Timestamp)

def report (rule : Rule) : Verdict → Option Outcome
  | .holds => none
  | .fails => some ⟨rule, .violation, detailOf "failed" []⟩
  | .invalid message => some ⟨rule, .notEvaluated, detailOf "invalid" [("message", .str message)]⟩

def NotEvaluated (rule : Rule) : Prop :=
  ∃ outcome, evaluateRule engine values unreadable knownPaths moment rule = .ok (some outcome) ∧
    outcome.outcome = .notEvaluated

def Evaluated (rule : Rule) : Prop :=
  evaluateRule engine values unreadable knownPaths moment rule =
    (engine.evaluate rule.definition (resolved values knownPaths) moment).map (report rule)

def assigned (assignment : String → Json) (path : String) : Option Json :=
  if (unreadable.lookup path).isSome then some (assignment path) else resolved values knownPaths path

theorem sortedPaths_eq_nil_iff {paths : List String} : sortedPaths paths = [] ↔ paths = [] := by
  rw [sortedPaths, ← List.length_eq_zero_iff, List.length_insertionSort, List.length_eq_zero_iff, List.dedup_eq_nil]

variable {engine values unreadable knownPaths moment}

theorem evaluateRule_unknown {rule : Rule} {path : String} (read : path ∈ pathsRead rule.definition)
    (unresolved : resolved values knownPaths path = none) (readable : unreadable.lookup path = none) :
    ∃ outcome, evaluateRule engine values unreadable knownPaths moment rule = .ok (some outcome) ∧
      outcome.outcome = .notEvaluated ∧ ∃ paths, outcome.detail = detailOf "unknown_path" [("paths", paths)] := by
  unfold evaluateRule
  dsimp only
  rw [if_pos]
  · exact ⟨_, rfl, rfl, _, rfl⟩
  · rw [ne_eq, sortedPaths_eq_nil_iff, List.filter_eq_nil_iff]
    intro none_
    exact none_ path read (by simp [unresolved, readable])

theorem evaluateRule_blind {rule : Rule} {path : String} (read : path ∈ pathsRead rule.definition)
    (hidden : (unreadable.lookup path).isSome = true) : NotEvaluated engine values unreadable knownPaths moment rule := by
  unfold NotEvaluated evaluateRule
  dsimp only
  split
  · exact ⟨_, rfl, rfl⟩
  · rw [if_pos]
    · exact ⟨_, rfl, rfl⟩
    · rw [ne_eq, sortedPaths_eq_nil_iff, List.filter_eq_nil_iff]
      intro none_
      exact none_ path read hidden

theorem evaluateRule_evaluated {rule : Rule}
    (known : ∀ path ∈ pathsRead rule.definition, (resolved values knownPaths path).isSome = true)
    (readable : ∀ path ∈ pathsRead rule.definition, unreadable.lookup path = none) :
    Evaluated engine values unreadable knownPaths moment rule := by
  unfold Evaluated evaluateRule
  dsimp only
  rw [if_neg, if_neg]
  · cases engine.evaluate rule.definition (resolved values knownPaths) moment with
    | error raised => rfl
    | ok verdict => cases verdict <;> rfl
  · rw [not_not, sortedPaths_eq_nil_iff, List.filter_eq_nil_iff]
    intro path read
    simp [readable path read]
  · rw [not_not, sortedPaths_eq_nil_iff, List.filter_eq_nil_iff]
    intro path read
    have there := known path read
    rw [Option.isSome_iff_ne_none] at there
    simp [there]

end Reports

section Soundness

variable (lib : Library) (python : Python) (clock : MomentTexts) (checkedAt moment : Timestamp) (values : Dict Json)
  (unreadable : Dict String)

def NeverBlind (knownPaths : List String) (rule : Rule) : Prop :=
  (∃ assignment assignment', (reference lib python clock checkedAt).evaluate rule.definition
        (assigned values unreadable knownPaths assignment) moment ≠
      (reference lib python clock checkedAt).evaluate rule.definition
        (assigned values unreadable knownPaths assignment') moment) →
    NotEvaluated (reference lib python clock checkedAt) values unreadable knownPaths moment rule

def ReadsUnreadable (fields : List Field) (rule : Rule) : Prop :=
  ∃ path ∈ pathsRead rule.definition, ∃ stored, Names fields path stored ∧ (unreadable.lookup stored).isSome = true

variable {lib python clock checkedAt moment values unreadable}

theorem neverBlind (knownPaths : List String) (rule : Rule) :
    NeverBlind lib python clock checkedAt moment values unreadable knownPaths rule := by
  rintro ⟨assignment, assignment', differ⟩
  by_contra evaluated
  apply differ
  have readable : ∀ path ∈ pathsRead rule.definition, (unreadable.lookup path).isSome = false := by
    intro path read
    rw [Bool.eq_false_iff]
    exact fun hidden => evaluated (evaluateRule_blind read hidden)
  have same : evaluate lib python (contextOf python clock (assigned values unreadable knownPaths assignment) moment)
      rule.definition =
        evaluate lib python (contextOf python clock (assigned values unreadable knownPaths assignment') moment)
          rule.definition := by
    apply evaluate_congr
    intro path read
    simp [assigned, readable path read]
  exact congrArg verdictOf same

theorem not_evaluated_of_unknown {engine : Engine} {knownPaths : List String} {rule : Rule} {path : String}
    (read : path ∈ pathsRead rule.definition) (unresolved : resolved values knownPaths path = none)
    (readable : unreadable.lookup path = none) : ¬Evaluated engine values unreadable knownPaths moment rule := by
  intro decided
  obtain ⟨outcome, reported, -, paths, detail⟩ := @evaluateRule_unknown engine _ _ _ moment _ _ read unresolved readable
  have verdict := decided.symm.trans reported
  cases given : engine.evaluate rule.definition (resolved values knownPaths) moment with
  | error raised =>
    rw [given] at verdict
    cases verdict
  | ok held =>
    rw [given] at verdict
    simp only [Except.map, Except.ok.injEq] at verdict
    cases held with
    | holds => cases verdict
    | fails =>
      rw [report, Option.some.injEq] at verdict
      rw [← verdict] at detail
      simp [detailOf] at detail
    | invalid message =>
      rw [report, Option.some.injEq] at verdict
      rw [← verdict] at detail
      simp [detailOf] at detail

/-- A rule over the form's questions is decided as it should be just when a field it reads is unreadable, or nothing
but bare ids and stored paths stands in it: a repeat named with its field is found in no map of answers. -/
theorem rule_decided_iff (ir : List (String × Json)) (rule : Rule)
    (ofForm : ∀ path ∈ pathsRead rule.definition, OfForm (fieldsUnder none ir) path) :
    (NeverBlind lib python clock checkedAt moment values unreadable (questionIdsUnder ir) rule ∧
      (¬ReadsUnreadable unreadable (fieldsUnder none ir) rule →
        Evaluated (reference lib python clock checkedAt) values unreadable (questionIdsUnder ir) moment rule)) ↔
      ReadsUnreadable unreadable (fieldsUnder none ir) rule ∨
        ∀ path ∈ pathsRead rule.definition, Qualified (fieldsUnder none ir) path →
          (values.lookup path).isSome = true ∨ path ∈ questionIdsUnder ir := by
  have shown (readable : ¬ReadsUnreadable unreadable (fieldsUnder none ir) rule) :
      ∀ path ∈ pathsRead rule.definition, unreadable.lookup path = none := by
    intro path read
    rw [← Option.not_isSome_iff_eq_none]
    exact fun hidden => readable ⟨path, read, path, .itself, hidden⟩
  constructor
  · rintro ⟨-, decided⟩
    by_contra neither
    rw [not_or] at neither
    obtain ⟨readable, unresolved⟩ := neither
    apply unresolved
    intro path read _
    by_contra missing
    rw [not_or, Option.not_isSome_iff_eq_none] at missing
    refine not_evaluated_of_unknown read ?_ (shown readable path read) (decided readable)
    simp only [resolved, missing.1, if_neg missing.2]
  · intro condition
    refine ⟨neverBlind _ rule, fun readable => evaluateRule_evaluated ?_ (shown readable)⟩
    intro path read
    have there : (values.lookup path).isSome = true ∨ path ∈ questionIdsUnder ir := by
      rcases ofForm path read with declared | qualified
      · rw [fieldsUnder_ids] at declared
        exact Or.inr declared
      · exact condition.resolve_left readable path read qualified
    unfold resolved
    cases stored : values.lookup path with
    | some value => rfl
    | none =>
      rw [stored] at there
      simp only [Option.isSome_none, Bool.false_eq_true, false_or] at there
      simp [there]

end Soundness

section Household

def household : List (String × Json) :=
  [("children", .arr [.obj [("type", .str "question"), ("id", .str "head")],
    .obj [("type", .str "repeat"), ("id", .str "members"),
      ("children", .arr [.obj [("type", .str "question"), ("id", .str "age")]])]])]

def refTo (path : String) : Json := .obj [("op", .str "ref"), ("path", .str path)]

/-- `count(members[].age) > 0` -/
def counted : Rule where
  id := "r1"
  name := "somebody"
  severity := .warning
  definition := .obj [("op", .str "gt"), ("args", .arr [
    .obj [("op", .str "call"), ("fn", .str "count"), ("args", .arr [refTo "members[].age"])],
    .obj [("op", .str "lit"), ("value", .int 0)]])]

def named : Rule where
  id := "r2"
  name := "named"
  severity := .warning
  definition := .obj [("op", .str "call"), ("fn", .str "is_not_null"), ("args", .arr [refTo "head"])]

def somePython : Python where
  repr _ := ""
  value
    | .str text => .text text
    | .int n => .integer n
    | _ => .null

def someTexts : MomentTexts := ⟨fun _ => "2026-01-01", fun _ => "2026-01-01T00:00:00+00:00"⟩

def answers : Dict Json := (AList.singleton "members[i1].age" (.int 30)).insert "head" (.str "Amina")

theorem counted_reads : pathsRead counted.definition = ["members[].age"] := by decide

theorem named_reads : pathsRead named.definition = ["head"] := by decide

theorem household_fields : fieldsUnder none household = [⟨none, "head"⟩, ⟨some "members", "age"⟩] := by rfl

/-- The rule that the head is named is evaluated. -/
theorem named_evaluated :
    Evaluated (reference Form.noLibrary somePython someTexts 0) answers ∅ (questionIdsUnder household) 0 named := by
  refine ((rule_decided_iff household named ?_).mpr (Or.inr ?_)).2 ?_
  · rw [named_reads, household_fields]
    simp [OfForm]
  · rw [named_reads]
    intro path member _
    rw [List.mem_singleton.mp member]
    exact Or.inl rfl
  · rintro ⟨path, -, stored, -, hidden⟩
    simp at hidden

/-- The count over the members is accepted as a rule and reads nothing that is unreadable, and is not evaluated. -/
theorem counted_not_evaluated :
    (reference Form.noLibrary somePython someTexts 0).refuses counted.definition = none ∧
      (∀ path ∈ pathsRead counted.definition, OfForm (fieldsUnder none household) path) ∧
      ¬ReadsUnreadable ∅ (fieldsUnder none household) counted ∧
      ¬Evaluated (reference Form.noLibrary somePython someTexts 0) answers ∅ (questionIdsUnder household) 0 counted := by
  refine ⟨by rfl, ?_, ?_, ?_⟩
  · rw [counted_reads, household_fields]
    intro path member
    rw [List.mem_singleton.mp member]
    exact Or.inr ⟨"members", "age", "", by simp, by decide, by decide⟩
  · rintro ⟨path, -, stored, -, hidden⟩
    simp at hidden
  · apply not_evaluated_of_unknown
    · rw [counted_reads]
      exact List.mem_singleton_self _
    · decide
    · rfl

end Household

end DataCollectionLab.Quality
