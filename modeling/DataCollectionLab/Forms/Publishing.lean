import DataCollectionLab.Entities.Publishing
import DataCollectionLab.Form.Formed
import DataCollectionLab.Lib.Runs

/-!
`publish_version` and `publish_dataset_version` on one database: a form version with the dataset versions it is pinned
to, both written once. The pins are those of the lists that the form's questions choose from, and a dataset that only a
`pulldata` names has none.
-/

namespace DataCollectionLab.Forms

open Form (Expr Node Question Group Repeat CompiledForm CompiledField Failure walk compile)

structure Document where
  formId : String
  version : ℤ
  children : List Node

section Reads

def choiceDataset (node : Question) : Option String :=
  match node.choices with
  | some (.dataset choices) => if choices.kind = "dataset" then some choices.dataset else none
  | _ => none

def keepKey (found : List String) (cf : CompiledField) : List String :=
  match choiceDataset cf.node with
  | some key => if key ∈ found then found else found ++ [key]
  | none => found

/-- `dataset_keys` -/
def datasetKeys (compiled : CompiledForm) : List String := compiled.fields.foldl keepKey []

mutual

/-- The literal datasets of the `pulldata` calls in an expression. -/
def pulled : Expr → List String
  | .lit _ | .ref _ => []
  | .op _ args => pulledAll args
  | .call fn args =>
    (match fn, args with
      | "pulldata", .lit (.text key) :: _ => [key]
      | _, _ => []) ++ pulledAll args

def pulledAll : List Expr → List String
  | [] => []
  | arg :: rest => pulled arg ++ pulledAll rest

end

def flagExprs : Option Form.Flag → List Expr
  | some (.expr value) => [value]
  | some (.fixed _) | none => []

def choiceExprs : Option Form.ChoiceList → List Expr
  | some (.dataset choices) => choices.filter.toList
  | some (.rows query) => query.filter.toList
  | some (.inline _) | none => []

def exprsOf : Node → List Expr
  | .question node => node.relevant.toList ++ node.constraint.toList ++ node.calculate.toList ++ node.default.toList ++
      flagExprs node.required ++ flagExprs node.readOnly ++ choiceExprs node.choices ++ node.labelArgs ++
      node.constraintMessageArgs
  | .group node _ => node.relevant.toList
  | .repeated node _ => node.relevant.toList ++ node.countExpr.toList ++ node.summaryLabelArgs

def questionOf : Node → Option Question
  | .question node => some node
  | .group .. | .repeated .. => none

namespace Document

variable (document : Document)

def questions : List Question := (walk [] document.children).filterMap fun visit => questionOf visit.1

def chosen : List String := document.questions.filterMap choiceDataset

/-- The datasets that its `pulldata` calls name. -/
def pulledDatasets : List String := (walk [] document.children).flatMap fun visit => pulledAll (exprsOf visit.1)

def queried : List String := document.chosen ++ document.pulledDatasets

/-- Every dataset that a `pulldata` names backs a choice list as well. -/
def Covered : Prop := ∀ key ∈ document.pulledDatasets, key ∈ document.chosen

end Document

end Reads

/-- `DatasetPin` -/
structure Pin where
  key : String
  datasetVersionId : String
  deriving DecidableEq

/-- A row of `dataset`. -/
structure Dataset where
  id : String
  projectId : String
  datasetKey : String

/-- A row of `dataset_version` with its records. -/
structure StoredDataset where
  id : String
  content : Entities.DatasetVersion

/-- A row of `form`. -/
structure FormRow where
  id : String
  projectId : String
  formKey : String

/-- A row of `form_version`. -/
structure FormVersion where
  id : String
  formId : String
  version : ℤ
  ir : Document
  irChecksum : String

/-- A row of `form_version_dataset`. -/
structure PinRow where
  formVersionId : String
  pin : Pin

structure Catalogue where
  datasets : List Dataset := []
  datasetVersions : List StoredDataset := []
  forms : List FormRow := []
  formVersions : List FormVersion := []
  pins : List PinRow := []

namespace Catalogue

variable (db : Catalogue)

def owner (datasetVersionId : String) : Option (String × String) := do
  let version ← db.datasetVersions.find? fun version => version.id = datasetVersionId
  let dataset ← db.datasets.find? fun dataset => dataset.id = version.content.datasetId
  return (dataset.datasetKey, dataset.projectId)

/-- `_stored_dataset_pins` -/
def storedPins (formVersionId : String) : List Pin :=
  (db.pins.filter fun row => row.formVersionId = formVersionId).map (·.pin)

end Catalogue

inductive PinViolation where
  | twice (key first second : String)
  | missing (keys : List String)
  | extra (keys : List String)
  | absent (key datasetVersionId : String)
  | otherProject (key : String)
  | otherKey (key actual : String)

section Pins

def collectPin (found : List Pin × List PinViolation) (pin : Pin) : List Pin × List PinViolation :=
  match found.1.find? fun kept => kept.key = pin.key with
  | some first => (found.1, found.2 ++ [.twice pin.key first.datasetVersionId pin.datasetVersionId])
  | none => (found.1 ++ [pin], found.2)

def nonempty (violation : List String → PinViolation) : List String → List PinViolation
  | [] => []
  | keys => [violation keys]

variable (db : Catalogue) (projectId : String)

def checkPin (byKey : List Pin) (key : String) : Option PinViolation :=
  match byKey.find? fun pin => pin.key = key with
  | none => none
  | some pin =>
    match db.owner pin.datasetVersionId with
    | none => some (.absent key pin.datasetVersionId)
    | some (datasetKey, owner) =>
      if owner ≠ projectId then some (.otherProject key)
      else if datasetKey ≠ key then some (.otherKey key datasetKey)
      else none

/-- `_resolve_dataset_pins` -/
def resolveDatasetPins (compiled : CompiledForm) (requested : List Pin) : Except (List PinViolation) (List Pin) :=
  let keys := datasetKeys compiled
  let (byKey, twice) := requested.foldl collectPin ([], [])
  let violations := twice ++
    nonempty .missing (keys.filter fun key => key ∉ byKey.map (·.key)) ++
    nonempty .extra (((byKey.map (·.key)).filter fun key => key ∉ keys).insertionSort (· ≤ ·)) ++
    keys.filterMap (checkPin db projectId byKey)
  if violations.isEmpty then .ok (keys.filterMap fun key => byKey.find? fun pin => pin.key = key)
  else .error violations

end Pins

inductive Refusal where
  | compile (failure : Failure)
  | noQuestions
  | checks (violations : List String)
  | pins (violations : List PinViolation)
  | imported (messages : List String)
  | differentContent (stored given : String)
  | moved (pins : List (Pin × String))
  /-- A key of the database is taken. -/
  | conflict

/-- A call of `publish_version`: the ids that its rows would have, and the import errors that are unresolved. -/
structure PublishCall where
  projectId : String
  ir : Document
  formId : String
  formVersionId : String
  datasets : List Pin := []
  importErrors : List String := []

/-- `PublishVersionResponse` -/
structure PublishResponse where
  id : String
  irChecksum : String
  created : Bool
  datasets : List Pin

section PublishVersion

variable (checks : CompiledForm → Document → List String) (irChecksum : Document → String) (db : Catalogue)

/-- `check_publishable`: the checks that only refuse are `checks`. -/
def checkPublishable (ir : Document) : Except Refusal CompiledForm :=
  match compile ir.children with
  | .error failure => .error (.compile failure)
  | .ok compiled =>
    if compiled.fields.isEmpty then .error .noQuestions
    else
      match checks compiled ir with
      | [] => .ok compiled
      | violations => .error (.checks violations)

def formFor (call : PublishCall) : Except Refusal (Catalogue × FormRow) :=
  match db.forms.find? fun form => form.projectId = call.projectId ∧ form.formKey = call.ir.formId with
  | some form => .ok (db, form)
  | none =>
    if db.forms.any fun form => form.id = call.formId then .error .conflict
    else .ok ({ db with forms := db.forms ++ [⟨call.formId, call.projectId, call.ir.formId⟩] },
      ⟨call.formId, call.projectId, call.ir.formId⟩)

def movedPins (stored pins : List Pin) : List (Pin × String) :=
  pins.filterMap fun pin =>
    match stored.find? fun old => old.key = pin.key with
    | some old => if old.datasetVersionId ≠ pin.datasetVersionId then some (pin, old.datasetVersionId) else none
    | none => none

/-- `publish_version`, deployments apart. A refusal leaves nothing behind. -/
def publishVersion (call : PublishCall) : Except Refusal (Catalogue × PublishResponse) := do
  let compiled ← checkPublishable checks call.ir
  let pins ← (resolveDatasetPins db call.projectId compiled call.datasets).mapError .pins
  if call.importErrors ≠ [] then throw (.imported call.importErrors)
  let (db, form) ← formFor db call
  match db.formVersions.find? fun version => version.formId = form.id ∧ version.version = call.ir.version with
  | some existing =>
    if existing.irChecksum ≠ irChecksum call.ir then throw (.differentContent existing.irChecksum (irChecksum call.ir))
    if movedPins (db.storedPins existing.id) pins ≠ [] then throw (.moved (movedPins (db.storedPins existing.id) pins))
    return (db, ⟨existing.id, existing.irChecksum, false, pins⟩)
  | none =>
    if db.formVersions.any fun version => version.id = call.formVersionId then throw .conflict
    return ({ db with
      formVersions := db.formVersions ++ [⟨call.formVersionId, form.id, call.ir.version, call.ir, irChecksum call.ir⟩]
      pins := db.pins ++ pins.map (PinRow.mk call.formVersionId) },
      ⟨call.formVersionId, irChecksum call.ir, true, pins⟩)

end PublishVersion

/-- A call of `publish_dataset_version`. -/
structure DatasetCall where
  projectId : String
  datasetKey : String
  request : Entities.PublishRequest
  datasetId : String
  datasetVersionId : String

section PublishDataset

variable (sha256 : Bytes → Bytes) (doubles : Crypto.Doubles) (db : Catalogue)

def datasetFor (call : DatasetCall) : Option (Catalogue × Dataset) :=
  match db.datasets.find? fun dataset => dataset.projectId = call.projectId ∧ dataset.datasetKey = call.datasetKey with
  | some dataset => some (db, dataset)
  | none =>
    if db.datasets.any fun dataset => dataset.id = call.datasetId then none
    else some ({ db with datasets := db.datasets ++ [⟨call.datasetId, call.projectId, call.datasetKey⟩] },
      ⟨call.datasetId, call.projectId, call.datasetKey⟩)

/-- `publish_dataset_version` on the tables; `none` is a refusal. -/
def publishDataset (call : DatasetCall) : Option Catalogue := do
  let (db, dataset) ← datasetFor db call
  let versions := (db.datasetVersions.map (·.content)).filter fun version => version.datasetId = dataset.id
  let outcome ← call.request.publish sha256 doubles dataset.id versions
  if outcome.created then
    if db.datasetVersions.any fun version => version.id = call.datasetVersionId then none
    else some { db with datasetVersions := db.datasetVersions ++ [⟨call.datasetVersionId, outcome.version⟩] }
  else some db

end PublishDataset

inductive Call where
  | version (call : PublishCall)
  | dataset (call : DatasetCall)

section Runs

variable (sha256 : Bytes → Bytes) (doubles : Crypto.Doubles) (checks : CompiledForm → Document → List String)
  (irChecksum : Document → String)

def Catalogue.next (db : Catalogue) : Call → Catalogue
  | .version call =>
    match publishVersion checks irChecksum db call with
    | .ok (db', _) => db'
    | .error _ => db
  | .dataset call => (publishDataset sha256 doubles db call).getD db

def catalogueAfter (calls : List Call) : Catalogue :=
  calls.foldl (Catalogue.next sha256 doubles checks irChecksum) {}

end Runs

section Keys

theorem keepKey_nodup {found : List String} (distinct : found.Nodup) (cf : CompiledField) : (keepKey found cf).Nodup := by
  unfold keepKey
  split
  · split
    · exact distinct
    · rename_i fresh
      rw [← List.concat_eq_append]
      exact distinct.concat fresh
  · exact distinct

theorem mem_keepKey {found : List String} {cf : CompiledField} {key : String} :
    key ∈ keepKey found cf ↔ key ∈ found ∨ choiceDataset cf.node = some key := by
  unfold keepKey
  split
  · rename_i named same
    split
    · rename_i there
      rw [same, Option.some.injEq]
      exact ⟨Or.inl, fun either => either.elim id fun new => new ▸ there⟩
    · rw [List.mem_append, List.mem_singleton, same, Option.some.injEq, @eq_comm _ key named]
  · rename_i none_
    simp [none_]

theorem datasetKeys_foldl (fields : List CompiledField) (found : List String) (distinct : found.Nodup) :
    (fields.foldl keepKey found).Nodup ∧
      ∀ key, key ∈ fields.foldl keepKey found ↔ key ∈ found ∨ ∃ cf ∈ fields, choiceDataset cf.node = some key := by
  induction fields generalizing found with
  | nil => simpa using distinct
  | cons cf fields ih =>
    obtain ⟨nodup, mem⟩ := ih (keepKey found cf) (keepKey_nodup distinct cf)
    refine ⟨nodup, fun key => ?_⟩
    rw [List.foldl_cons, mem key, mem_keepKey, or_assoc]
    simp only [List.mem_cons, exists_eq_or_imp]

theorem mem_datasetKeys {compiled : CompiledForm} {key : String} :
    key ∈ datasetKeys compiled ↔ ∃ cf ∈ compiled.fields, choiceDataset cf.node = some key := by
  have both := datasetKeys_foldl compiled.fields [] List.nodup_nil
  unfold datasetKeys
  simpa using both.2 key

theorem datasetKeys_nodup (compiled : CompiledForm) : (datasetKeys compiled).Nodup :=
  (datasetKeys_foldl compiled.fields [] List.nodup_nil).1

theorem walked_questions {visits : List (Node × List String)} {form next : CompiledForm}
    (walked : visits.foldlM Form.compileNode form = .ok next) :
    next.fields.map (·.node) = form.fields.map (·.node) ++ visits.filterMap fun visit => questionOf visit.1 := by
  induction visits generalizing form with
  | nil =>
    cases walked
    simp
  | cons visit visits ih =>
    obtain ⟨node, ancestors⟩ := visit
    obtain ⟨middle, first, rest⟩ := Lib.foldlM_cons_ok_iff.mp walked
    rw [ih rest]
    obtain ⟨-, -, -, left⟩ := Form.compileNode_cases first
    obtain ⟨question, rfl, cf, rfl, -, -, -, rfl⟩ | ⟨group, children, rfl, rfl⟩ | ⟨repeated, children, rfl, -, -, rfl⟩ := left
    · simp [questionOf]
    · simp [questionOf]
    · simp [questionOf]

theorem compile_questions {document : Document} {compiled : CompiledForm} (ok : compile document.children = .ok compiled) :
    compiled.fields.map (·.node) = document.questions := by
  obtain ⟨grown, walked, -, linked, -⟩ := Form.compile_parts ok
  have nodes {l r : List CompiledField} (both : List.Forall₂ (fun cf cf' => Form.linkRowsChoices grown cf = .ok cf') l r) :
      r.map (·.node) = l.map (·.node) := by
    induction both with
    | nil => rfl
    | cons here _ ih => rw [List.map_cons, List.map_cons, ih, (Form.linkRowsChoices_same here).1]
  rw [nodes linked, walked_questions walked]
  rfl

theorem mem_datasetKeys_iff {document : Document} {compiled : CompiledForm} (ok : compile document.children = .ok compiled)
    {key : String} : key ∈ datasetKeys compiled ↔ key ∈ document.chosen := by
  rw [mem_datasetKeys, Document.chosen, ← compile_questions ok, List.mem_filterMap]
  simp only [List.mem_map, exists_exists_and_eq_and]

end Keys

section Resolved

variable {db : Catalogue} {projectId : String} {compiled : CompiledForm} {requested pins : List Pin}

theorem nonempty_eq_nil_iff {violation : List String → PinViolation} {keys : List String} :
    nonempty violation keys = [] ↔ keys = [] := by
  cases keys <;> simp [nonempty]

theorem checkPin_none {byKey : List Pin} {key : String} {pin : Pin} (found : byKey.find? (fun pin => pin.key = key) = some pin)
    (passes : checkPin db projectId byKey key = none) : db.owner pin.datasetVersionId = some (key, projectId) := by
  unfold checkPin at passes
  simp only [found] at passes
  split at passes
  · cases passes
  · rename_i datasetKey owner there
    split at passes
    · cases passes
    · rename_i same
      split at passes
      · cases passes
      · rename_i named
        rw [there, not_not.mp same, not_not.mp named]

theorem resolve_spec (resolved : resolveDatasetPins db projectId compiled requested = .ok pins) :
    pins.map (·.key) = datasetKeys compiled ∧
      ∀ pin ∈ pins, db.owner pin.datasetVersionId = some (pin.key, projectId) := by
  unfold resolveDatasetPins at resolved
  dsimp only at resolved
  generalize requested.foldl collectPin ([], []) = collected at resolved
  obtain ⟨byKey, twice⟩ := collected
  dsimp only at resolved
  split at resolved
  · rename_i clean
    rw [← Except.ok.inj resolved]
    rw [List.isEmpty_iff, List.append_eq_nil_iff, List.append_eq_nil_iff, List.append_eq_nil_iff, nonempty_eq_nil_iff] at clean
    obtain ⟨⟨⟨-, missing⟩, -⟩, checked⟩ := clean
    have each : ∀ key ∈ datasetKeys compiled, ∃ pin, byKey.find? (fun pin => pin.key = key) = some pin ∧ pin.key = key := by
      intro key member
      rw [List.filter_eq_nil_iff] at missing
      have there : key ∈ byKey.map (·.key) := by simpa using missing key member
      obtain ⟨pin, inside, same⟩ := List.mem_map.mp there
      cases found : byKey.find? (fun pin => pin.key = key) with
      | none =>
        have none_ := List.find?_eq_none.mp found pin inside
        simp [same] at none_
      | some first => exact ⟨first, rfl, by simpa using List.find?_some found⟩
    refine ⟨?_, fun pin member => ?_⟩
    · have all : ∀ keys : List String, (∀ key ∈ keys, key ∈ datasetKeys compiled) →
          (keys.filterMap fun key => byKey.find? fun pin => pin.key = key).map (·.key) = keys := by
        intro keys sub
        induction keys with
        | nil => rfl
        | cons key keys ih =>
          obtain ⟨pin, found, same⟩ := each key (sub key List.mem_cons_self)
          simp only [List.filterMap_cons, found, List.map_cons, same, ih fun other member => sub other (List.mem_cons_of_mem _ member)]
      exact all _ fun _ member => member
    · obtain ⟨key, member, found⟩ := List.mem_filterMap.mp member
      have same : pin.key = key := by simpa using List.find?_some found
      rw [same]
      exact checkPin_none found (List.filterMap_eq_nil_iff.mp checked key member)
  · cases resolved

end Resolved

section Growth

structure Grows (db db' : Catalogue) : Prop where
  datasets : db.datasets <+: db'.datasets
  datasetVersions : db.datasetVersions <+: db'.datasetVersions
  forms : db.forms <+: db'.forms
  formVersions : db.formVersions <+: db'.formVersions

theorem Grows.refl (db : Catalogue) : Grows db db :=
  ⟨List.prefix_rfl, List.prefix_rfl, List.prefix_rfl, List.prefix_rfl⟩

theorem Grows.trans {db db' db'' : Catalogue} (first : Grows db db') (second : Grows db' db'') : Grows db db'' where
  datasets := first.datasets.trans second.datasets
  datasetVersions := first.datasetVersions.trans second.datasetVersions
  forms := first.forms.trans second.forms
  formVersions := first.formVersions.trans second.formVersions

theorem find?_of_prefix {α : Type} {test : α → Bool} {l l' : List α} {a : α} (grown : l <+: l') (found : l.find? test = some a) :
    l'.find? test = some a := by
  obtain ⟨more, rfl⟩ := grown
  rw [List.find?_append, found]
  rfl

theorem Grows.owner {db db' : Catalogue} (grows : Grows db db') {id : String} {key : String × String}
    (found : db.owner id = some key) : db'.owner id = some key := by
  unfold Catalogue.owner at found ⊢
  obtain ⟨version, there, found⟩ := Option.bind_eq_some_iff.mp found
  obtain ⟨dataset, inside, found⟩ := Option.bind_eq_some_iff.mp found
  simp only [bind, find?_of_prefix grows.datasetVersions there, Option.bind_some, find?_of_prefix grows.datasets inside]
  exact found

end Growth

/-- A form version and its pins: those that the publish resolved, to dataset versions of the form's project. -/
structure Pinned (db : Catalogue) (row : FormVersion) : Prop where
  keys : ∃ compiled, compile row.ir.children = .ok compiled ∧ (db.storedPins row.id).map (·.key) = datasetKeys compiled
  owned : ∃ form ∈ db.forms, form.id = row.formId ∧
    ∀ pin ∈ db.storedPins row.id, db.owner pin.datasetVersionId = some (pin.key, form.projectId)

structure Sound (db : Catalogue) : Prop where
  forms : (db.forms.map fun form => (form.projectId, form.formKey)).Nodup
  numbers : (db.formVersions.map fun row => (row.formId, row.version)).Nodup
  versions : (db.formVersions.map (·.id)).Nodup
  datasets : (db.datasetVersions.map (·.id)).Nodup
  pins : ∀ row ∈ db.pins, row.formVersionId ∈ db.formVersions.map (·.id)
  pinned : ∀ row ∈ db.formVersions, Pinned db row

theorem Pinned.grows {db db' : Catalogue} {row : FormVersion} (pinned : Pinned db row) (grows : Grows db db')
    (same : db'.storedPins row.id = db.storedPins row.id) : Pinned db' row where
  keys := by
    rw [same]
    exact pinned.keys
  owned := by
    obtain ⟨form, member, id, owned⟩ := pinned.owned
    refine ⟨form, grows.forms.subset member, id, fun pin inside => ?_⟩
    rw [same] at inside
    exact grows.owner (owned pin inside)

section Steps

variable {checks : CompiledForm → Document → List String} {irChecksum : Document → String} {db db' : Catalogue}

theorem formFor_spec {call : PublishCall} {form : FormRow} (found : formFor db call = .ok (db', form)) :
    (∃ more, db' = { db with forms := db.forms ++ more }) ∧ form ∈ db'.forms ∧ form.projectId = call.projectId ∧
      form.formKey = call.ir.formId ∧
      ((db.forms.map fun form => (form.projectId, form.formKey)).Nodup →
        (db'.forms.map fun form => (form.projectId, form.formKey)).Nodup) := by
  unfold formFor at found
  split at found
  · rename_i there
    cases found
    have both := List.find?_some there
    rw [decide_eq_true_eq] at both
    exact ⟨⟨[], by simp⟩, List.mem_of_find?_eq_some there, both.1, both.2, id⟩
  · rename_i missing
    split at found
    · cases found
    · cases found
      refine ⟨⟨_, rfl⟩, by simp, rfl, rfl, fun distinct => ?_⟩
      rw [List.map_append, List.map_singleton, ← List.concat_eq_append]
      refine distinct.concat fun taken => ?_
      obtain ⟨form, inside, same⟩ := List.mem_map.mp taken
      exact List.find?_eq_none.mp missing form inside (by simpa using same)

theorem checkPublishable_ok {ir : Document} {compiled : CompiledForm} (ok : checkPublishable checks ir = .ok compiled) :
    compile ir.children = .ok compiled := by
  unfold checkPublishable at ok
  split at ok
  · cases ok
  · rename_i form compiles
    split at ok
    · cases ok
    · split at ok
      · rw [compiles, Except.ok.inj ok]
      · cases ok

structure Adds (irChecksum : Document → String) (db db' : Catalogue) (call : PublishCall) (form : FormRow) (pins : List Pin) :
    Prop where
  fresh : call.formVersionId ∉ db.formVersions.map (·.id)
  number : (form.id, call.ir.version) ∉ db.formVersions.map fun row => (row.formId, row.version)
  versions : db'.formVersions = db.formVersions ++ [⟨call.formVersionId, form.id, call.ir.version, call.ir, irChecksum call.ir⟩]
  pins : db'.pins = db.pins ++ pins.map (PinRow.mk call.formVersionId)

theorem publishVersion_spec {call : PublishCall} {response : PublishResponse}
    (published : publishVersion checks irChecksum db call = .ok (db', response)) :
    ∃ compiled pins form, compile call.ir.children = .ok compiled ∧
      resolveDatasetPins db call.projectId compiled call.datasets = .ok pins ∧ form ∈ db'.forms ∧
      form.projectId = call.projectId ∧ form.formKey = call.ir.formId ∧
      ((db.forms.map fun form => (form.projectId, form.formKey)).Nodup →
        (db'.forms.map fun form => (form.projectId, form.formKey)).Nodup) ∧
      (∃ more, db'.forms = db.forms ++ more) ∧ db'.datasets = db.datasets ∧
      db'.datasetVersions = db.datasetVersions ∧
      ((response.created = false ∧ db'.formVersions = db.formVersions ∧ db'.pins = db.pins ∧
          ∃ existing ∈ db.formVersions, existing.formId = form.id ∧ existing.version = call.ir.version ∧
            existing.id = response.id ∧ existing.irChecksum = irChecksum call.ir) ∨
        (response.created = true ∧ Adds irChecksum db db' call form pins)) := by
  unfold publishVersion at published
  obtain ⟨compiled, publishable, published⟩ := Lib.bind_ok_iff.mp published
  obtain ⟨pins, resolved, published⟩ := Lib.bind_ok_iff.mp published
  split at published
  · cases published
  obtain ⟨⟨middle, form⟩, found, published⟩ := Lib.bind_ok_iff.mp published
  obtain ⟨⟨more, rfl⟩, member, project, key, distinct⟩ := formFor_spec found
  have resolves : resolveDatasetPins db call.projectId compiled call.datasets = .ok pins := by
    cases given : resolveDatasetPins db call.projectId compiled call.datasets with
    | error violations =>
      rw [given] at resolved
      cases resolved
    | ok pins' =>
      rw [given] at resolved
      exact congrArg Except.ok (Except.ok.inj resolved)
  refine ⟨compiled, pins, form, checkPublishable_ok publishable, resolves, ?_⟩
  dsimp only at published
  split at published
  · rename_i existing there
    have both := List.find?_some there
    rw [decide_eq_true_eq] at both
    split at published
    · cases published
    · rename_i same
      split at published
      · cases published
      · cases published
        exact ⟨member, project, key, distinct, ⟨more, rfl⟩, rfl, rfl, Or.inl ⟨rfl, rfl, rfl, existing, List.mem_of_find?_eq_some there,
          both.1, both.2, rfl, not_not.mp same⟩⟩
  · rename_i missing
    split at published
    · cases published
    · rename_i fresh
      cases published
      refine ⟨member, project, key, distinct, ⟨more, rfl⟩, rfl, rfl, Or.inr ⟨rfl, fun taken => ?_, fun taken => ?_, rfl, rfl⟩⟩
      · obtain ⟨version, inside, same⟩ := List.mem_map.mp taken
        exact fresh (List.any_eq_true.mpr ⟨version, inside, by simpa using same⟩)
      · obtain ⟨version, inside, same⟩ := List.mem_map.mp taken
        exact List.find?_eq_none.mp missing version inside (by simpa using same)

theorem publishDataset_spec {sha256 : Bytes → Bytes} {doubles : Crypto.Doubles} {call : DatasetCall}
    (published : publishDataset sha256 doubles db call = some db') (distinct : (db.datasetVersions.map (·.id)).Nodup) :
    Grows db db' ∧ db'.forms = db.forms ∧ db'.formVersions = db.formVersions ∧ db'.pins = db.pins ∧ (db'.datasetVersions.map (·.id)).Nodup := by
  have dataset : ∀ middle row, datasetFor db call = some (middle, row) →
      ∃ more, middle = { db with datasets := db.datasets ++ more } := by
    intro middle row found
    unfold datasetFor at found
    split at found
    · cases found
      exact ⟨[], by simp⟩
    · split at found
      · cases found
      · cases found
        exact ⟨_, rfl⟩
  unfold publishDataset at published
  obtain ⟨⟨middle, row⟩, found, published⟩ := Option.bind_eq_some_iff.mp published
  obtain ⟨more, rfl⟩ := dataset middle row found
  obtain ⟨outcome, -, published⟩ := Option.bind_eq_some_iff.mp published
  split at published
  · split at published
    · cases published
    · rename_i fresh
      cases published
      refine ⟨⟨List.prefix_append _ _, List.prefix_append _ _, List.prefix_rfl, List.prefix_rfl⟩, rfl, rfl, rfl, ?_⟩
      rw [List.map_append, List.map_singleton, ← List.concat_eq_append]
      refine distinct.concat fun taken => ?_
      obtain ⟨version, inside, same⟩ := List.mem_map.mp taken
      exact fresh (List.any_eq_true.mpr ⟨version, inside, by simpa using same⟩)
  · cases published
    exact ⟨⟨List.prefix_append _ _, List.prefix_rfl, List.prefix_rfl, List.prefix_rfl⟩, rfl, rfl, rfl, distinct⟩

/-- The tables have grown, and every version there was has the pins it had. -/
structure Keeps (db db' : Catalogue) : Prop where
  grows : Grows db db'
  stored : ∀ row ∈ db.formVersions, db'.storedPins row.id = db.storedPins row.id

theorem Keeps.refl (db : Catalogue) : Keeps db db := ⟨.refl db, fun _ _ => rfl⟩

theorem Keeps.trans {db'' : Catalogue} (first : Keeps db db') (second : Keeps db' db'') : Keeps db db'' where
  grows := first.grows.trans second.grows
  stored row member := (second.stored row (first.grows.formVersions.subset member)).trans (first.stored row member)

theorem Adds.stored {call : PublishCall} {form : FormRow} {pins : List Pin} (adds : Adds irChecksum db db' call form pins)
    {id : String} (other : id ≠ call.formVersionId) : db'.storedPins id = db.storedPins id := by
  have none_ : (pins.map (PinRow.mk call.formVersionId)).filter (fun row => row.formVersionId = id) = [] := by
    rw [List.filter_eq_nil_iff]
    intro row member
    obtain ⟨pin, -, rfl⟩ := List.mem_map.mp member
    simpa using other.symm
  rw [Catalogue.storedPins, adds.pins, List.filter_append, none_, List.append_nil]
  rfl

theorem Adds.storedOwn {call : PublishCall} {form : FormRow} {pins : List Pin} (adds : Adds irChecksum db db' call form pins)
    (keyed : ∀ row ∈ db.pins, row.formVersionId ∈ db.formVersions.map (·.id)) : db'.storedPins call.formVersionId = pins := by
  have before : db.pins.filter (fun row => row.formVersionId = call.formVersionId) = [] := by
    rw [List.filter_eq_nil_iff]
    intro row member same
    rw [decide_eq_true_eq] at same
    exact adds.fresh (same ▸ keyed row member)
  have after : (pins.map (PinRow.mk call.formVersionId)).filter (fun row => row.formVersionId = call.formVersionId) =
      pins.map (PinRow.mk call.formVersionId) := by
    rw [List.filter_eq_self]
    intro row member
    obtain ⟨pin, -, rfl⟩ := List.mem_map.mp member
    simp
  rw [Catalogue.storedPins, adds.pins, List.filter_append, before, after, List.nil_append, List.map_map]
  exact List.map_id pins

theorem sound_published {call : PublishCall} {response : PublishResponse} (sound : Sound db)
    (published : publishVersion checks irChecksum db call = .ok (db', response)) : Keeps db db' ∧ Sound db' := by
  obtain ⟨compiled, pins, form, compiles, resolved, member, project, -, distinct, ⟨more, forms⟩, datasets, versions, left⟩ :=
    publishVersion_spec published
  have keys := distinct sound.forms
  have grown {rows : List FormVersion} (formVersions : db'.formVersions = db.formVersions ++ rows) : Grows db db' :=
    ⟨by rw [datasets], by rw [versions], by rw [forms]; exact List.prefix_append _ _,
      by rw [formVersions]; exact List.prefix_append _ _⟩
  rcases left with ⟨-, same, kept, -⟩ | ⟨-, adds⟩
  · have grows := @grown [] (by rw [same, List.append_nil])
    have stored : ∀ id, db'.storedPins id = db.storedPins id := fun id => by rw [Catalogue.storedPins, kept]; rfl
    refine ⟨⟨grows, fun row _ => stored row.id⟩, keys, by rw [same]; exact sound.numbers, by rw [same]; exact sound.versions,
      by rw [versions]; exact sound.datasets, by rw [same, kept]; exact sound.pins, fun row there => ?_⟩
    rw [same] at there
    exact (sound.pinned row there).grows grows (stored row.id)
  · have grows := grown adds.versions
    have stored : ∀ row ∈ db.formVersions, db'.storedPins row.id = db.storedPins row.id := by
      intro row there
      apply adds.stored
      rintro same
      exact adds.fresh (same ▸ List.mem_map_of_mem there)
    refine ⟨⟨grows, stored⟩, keys, ?_, ?_, by rw [versions]; exact sound.datasets, ?_, fun row there => ?_⟩
    · rw [adds.versions, List.map_append, List.map_singleton, ← List.concat_eq_append]
      exact sound.numbers.concat adds.number
    · rw [adds.versions, List.map_append, List.map_singleton, ← List.concat_eq_append]
      exact sound.versions.concat adds.fresh
    · intro row there
      rw [adds.versions, List.map_append]
      rw [adds.pins] at there
      rcases List.mem_append.mp there with old | new
      · exact List.mem_append_left _ (sound.pins row old)
      · obtain ⟨pin, -, rfl⟩ := List.mem_map.mp new
        simp
    · rw [adds.versions] at there
      rcases List.mem_append.mp there with old | new
      · exact (sound.pinned row old).grows grows (stored row old)
      · rw [List.mem_singleton] at new
        subst new
        obtain ⟨keys, owned⟩ := resolve_spec resolved
        have own := adds.storedOwn sound.pins
        refine ⟨⟨compiled, compiles, by rw [own, keys]⟩, form, member, rfl, fun pin inside => ?_⟩
        rw [own] at inside
        rw [project]
        exact grows.owner (owned pin inside)

variable {sha256 : Bytes → Bytes} {doubles : Crypto.Doubles}

theorem sound_next (sound : Sound db) (call : Call) :
    Keeps db (db.next sha256 doubles checks irChecksum call) ∧ Sound (db.next sha256 doubles checks irChecksum call) := by
  cases call with
  | version call =>
    unfold Catalogue.next
    dsimp only
    split
    · rename_i published
      exact sound_published sound published
    · exact ⟨.refl db, sound⟩
  | dataset call =>
    unfold Catalogue.next
    dsimp only
    cases published : publishDataset sha256 doubles db call with
    | none => exact ⟨.refl db, sound⟩
    | some db' =>
      obtain ⟨grows, forms, same, kept, distinct⟩ := publishDataset_spec published sound.datasets
      have stored : ∀ id, db'.storedPins id = db.storedPins id := fun id => by rw [Catalogue.storedPins, kept]; rfl
      refine ⟨⟨grows, fun row _ => stored row.id⟩, by rw [Option.getD_some, forms]; exact sound.forms,
        by rw [Option.getD_some, same]; exact sound.numbers, by rw [Option.getD_some, same]; exact sound.versions, distinct,
        by rw [Option.getD_some, same, kept]; exact sound.pins, fun row there => ?_⟩
      rw [Option.getD_some, same] at there
      exact (sound.pinned row there).grows grows (stored row.id)

theorem sound_calls (sound : Sound db) (calls : List Call) :
    Keeps db (calls.foldl (Catalogue.next sha256 doubles checks irChecksum) db) ∧
      Sound (calls.foldl (Catalogue.next sha256 doubles checks irChecksum) db) := by
  induction calls generalizing db with
  | nil => exact ⟨.refl db, sound⟩
  | cons call calls ih =>
    obtain ⟨first, sound'⟩ := @sound_next checks irChecksum db sha256 doubles sound call
    obtain ⟨later, last⟩ := ih sound'
    exact ⟨first.trans later, last⟩

theorem catalogueAfter_sound (calls : List Call) : Sound (catalogueAfter sha256 doubles checks irChecksum calls) := by
  have empty : Sound {} := by constructor <;> simp
  exact (sound_calls empty calls).2

theorem republished (sound : Sound db) {call : PublishCall} {existing : FormVersion} {form : FormRow} (there : existing ∈ db.formVersions)
    (listed : form ∈ db.forms) (of_ : existing.formId = form.id) (project : form.projectId = call.projectId)
    (key : form.formKey = call.ir.formId) (number : existing.version = call.ir.version) {response : PublishResponse}
    (published : publishVersion checks irChecksum db call = .ok (db', response)) :
    response.id = existing.id ∧ response.created = false ∧ db'.formVersions = db.formVersions ∧ db'.pins = db.pins := by
  obtain ⟨compiled, pins, form', -, -, member, project', key', distinct, ⟨more, forms⟩, -, -, left⟩ :=
    publishVersion_spec published
  have same : form = form' := by
    have inside : form ∈ db'.forms := by
      rw [forms]
      exact List.mem_append_left _ listed
    exact List.inj_on_of_nodup_map (distinct sound.forms) inside member (by rw [project, key, project', key'])
  rcases left with ⟨created, kept, keptPins, first, inside, of', number', id, -⟩ | ⟨-, adds⟩
  · have one : first = existing := by
      apply List.inj_on_of_nodup_map sound.numbers inside there
      rw [of', number', of_, number, same]
    rw [← id, one]
    exact ⟨rfl, created, kept, keptPins⟩
  · refine absurd (List.mem_map.mpr ⟨existing, there, ?_⟩) adds.number
    rw [of_, number, same]

end Steps

/-- The pins of a version are to exactly one dataset version, of the form's project and of that key, for every dataset
that the form can query, and to no other. -/
structure PinsExact (db : Catalogue) (row : FormVersion) : Prop where
  every : ∀ key ∈ row.ir.queried, ∃ pin, (db.storedPins row.id).filter (fun pin => pin.key = key) = [pin]
  only : ∀ pin ∈ db.storedPins row.id, pin.key ∈ row.ir.queried
  one : ∀ pin ∈ db.storedPins row.id, ∃! version, version ∈ db.datasetVersions ∧ version.id = pin.datasetVersionId ∧
    ∃ dataset ∈ db.datasets, ∃ form ∈ db.forms, dataset.id = version.content.datasetId ∧ form.id = row.formId ∧
      dataset.projectId = form.projectId ∧ dataset.datasetKey = pin.key

section Exact

variable {db : Catalogue} {row : FormVersion}

theorem Pinned.mem_iff (pinned : Pinned db row) {key : String} :
    key ∈ (db.storedPins row.id).map (·.key) ↔ key ∈ row.ir.chosen := by
  obtain ⟨compiled, compiles, keys⟩ := pinned.keys
  rw [keys, mem_datasetKeys_iff compiles]

theorem Pinned.one (pinned : Pinned db row) {key : String} (chosen : key ∈ row.ir.chosen) :
    ∃ pin, (db.storedPins row.id).filter (fun pin => pin.key = key) = [pin] := by
  obtain ⟨pin, inside, rfl⟩ := List.mem_map.mp (pinned.mem_iff.mpr chosen)
  obtain ⟨compiled, -, keys⟩ := pinned.keys
  have distinct := datasetKeys_nodup compiled
  rw [← keys] at distinct
  obtain ⟨front, back, split⟩ := List.append_of_mem inside
  rw [split, List.map_append, List.map_cons, List.nodup_append, List.nodup_cons] at distinct
  obtain ⟨-, ⟨after, -⟩, before⟩ := distinct
  have none_ {l : List Pin} (apart : ∀ other ∈ l, other.key ≠ pin.key) : l.filter (fun other => other.key = pin.key) = [] := by
    rw [List.filter_eq_nil_iff]
    intro other there
    simpa using apart other there
  refine ⟨pin, ?_⟩
  rw [split, List.filter_append, List.filter_cons_of_pos (by simp), none_, none_, List.nil_append]
  · exact fun other there same => after (same ▸ List.mem_map_of_mem there)
  · exact fun other there same => before _ (List.mem_map_of_mem there) _ List.mem_cons_self same

theorem pinsExact_iff (sound : Sound db) (member : row ∈ db.formVersions) : PinsExact db row ↔ row.ir.Covered := by
  have pinned := sound.pinned row member
  constructor
  · intro exact_ key pulled
    obtain ⟨pin, only⟩ := exact_.every key (List.mem_append_right _ pulled)
    have inside : pin ∈ (db.storedPins row.id).filter fun pin => pin.key = key := by
      rw [only]
      exact List.mem_singleton_self pin
    obtain ⟨stored, same⟩ := List.mem_filter.mp inside
    rw [decide_eq_true_eq] at same
    exact pinned.mem_iff.mp (List.mem_map.mpr ⟨pin, stored, same⟩)
  · intro covered
    refine ⟨fun key queried => ?_, fun pin inside => ?_, fun pin inside => ?_⟩
    · exact pinned.one ((List.mem_append.mp queried).elim id (covered key))
    · exact List.mem_append_left _ (pinned.mem_iff.mp (List.mem_map_of_mem inside))
    · obtain ⟨form, listed, id, owned⟩ := pinned.owned
      have owner := owned pin inside
      unfold Catalogue.owner at owner
      obtain ⟨version, there, owner⟩ := Option.bind_eq_some_iff.mp owner
      obtain ⟨dataset, found, owner⟩ := Option.bind_eq_some_iff.mp owner
      obtain ⟨key, project⟩ := Prod.mk.inj (Option.some.inj owner)
      have versionId : version.id = pin.datasetVersionId := by simpa using List.find?_some there
      have datasetId : dataset.id = version.content.datasetId := by simpa using List.find?_some found
      refine ⟨version, ⟨List.mem_of_find?_eq_some there, versionId, dataset, List.mem_of_find?_eq_some found, form, listed,
        datasetId, id, project, key⟩, fun other both => ?_⟩
      exact List.inj_on_of_nodup_map sound.datasets both.1 (List.mem_of_find?_eq_some there) (both.2.1.trans versionId.symm)

end Exact

section Property

variable (sha256 : Bytes → Bytes) (doubles : Crypto.Doubles) (checks : CompiledForm → Document → List String)
  (irChecksum : Document → String)

/-- In every run of publishes, a version that is stored stays as it is with its pins, another publish of its number is
that version or refused, and its pins are exact just when every dataset of a `pulldata` backs a choice list as well. -/
theorem publish_pins_iff (calls : List Call) :
    (∀ first rest, calls = first ++ rest → ∀ row ∈ (catalogueAfter sha256 doubles checks irChecksum first).formVersions,
      row ∈ (catalogueAfter sha256 doubles checks irChecksum calls).formVersions ∧
        (∀ other ∈ (catalogueAfter sha256 doubles checks irChecksum calls).formVersions, other.id = row.id → other = row) ∧
        (catalogueAfter sha256 doubles checks irChecksum calls).storedPins row.id =
          (catalogueAfter sha256 doubles checks irChecksum first).storedPins row.id) ∧
    (∀ existing ∈ (catalogueAfter sha256 doubles checks irChecksum calls).formVersions,
      ∀ form ∈ (catalogueAfter sha256 doubles checks irChecksum calls).forms, existing.formId = form.id →
        ∀ call db response, form.projectId = call.projectId → form.formKey = call.ir.formId →
          existing.version = call.ir.version →
          publishVersion checks irChecksum (catalogueAfter sha256 doubles checks irChecksum calls) call = .ok (db, response) →
            response.id = existing.id ∧ response.created = false ∧
              db.formVersions = (catalogueAfter sha256 doubles checks irChecksum calls).formVersions ∧
              db.pins = (catalogueAfter sha256 doubles checks irChecksum calls).pins) ∧
    ∀ row ∈ (catalogueAfter sha256 doubles checks irChecksum calls).formVersions,
      (PinsExact (catalogueAfter sha256 doubles checks irChecksum calls) row ↔ row.ir.Covered) := by
  have sound := @catalogueAfter_sound checks irChecksum sha256 doubles calls
  refine ⟨?_, ?_, fun row member => pinsExact_iff sound member⟩
  · rintro first rest rfl row member
    have keeps := (@sound_calls checks irChecksum _ sha256 doubles
      (@catalogueAfter_sound checks irChecksum sha256 doubles first) rest).1
    unfold catalogueAfter at member keeps sound ⊢
    rw [List.foldl_append] at sound ⊢
    have there := keeps.grows.formVersions.subset member
    exact ⟨there, fun other inside same => List.inj_on_of_nodup_map sound.versions inside there same,
      keeps.stored row member⟩
  · intro existing there form listed of_ call db response project key number published
    exact republished sound there listed of_ project key number published

end Property

section Villages

def lookedUp : Document where
  formId := "visit"
  version := 1
  children := [.question {
    id := "village"
    dataType := "text"
    label := [("en", "Village")]
    calculate := some (.call "pulldata" [.lit (.text "villages"), .lit (.text "k"), .lit (.text "k"), .lit (.text "a")]) }]

def villages : DatasetCall := ⟨"p", "villages", Entities.inOrder, "d", "dv"⟩

def visit (datasets : List Pin) : PublishCall where
  projectId := "p"
  ir := lookedUp
  formId := "f"
  formVersionId := "fv"
  datasets := datasets

def noChecks (_ : CompiledForm) (_ : Document) : List String := []

def visitChecksum (_ : Document) : String := "sha256:a11c7b9b6186d2237d041ba39ea0e4b2332e152dd7b966930f547309b5abfd1d"

def publishedVisit : Catalogue :=
  catalogueAfter Entities.digests Entities.powers noChecks visitChecksum [.dataset villages, .version (visit [])]

theorem publishedVisit_rows : publishedVisit.formVersions = [⟨"fv", "f", 1, lookedUp, visitChecksum lookedUp⟩] ∧
    publishedVisit.pins = [] := by
  constructor <;> rfl

/-- The form is published without a pin to its dataset, and refused with one. -/
theorem lookup_unpinned :
    (∃ row ∈ publishedVisit.formVersions, "villages" ∈ row.ir.queried ∧ ¬PinsExact publishedVisit row) ∧
      (publishVersion noChecks visitChecksum
        (catalogueAfter Entities.digests Entities.powers noChecks visitChecksum [.dataset villages])
        (visit [⟨"villages", "dv"⟩])).isOk = false := by
  obtain ⟨rows, pins⟩ := publishedVisit_rows
  have queried : "villages" ∈ lookedUp.queried := by decide +kernel
  refine ⟨⟨_, rows ▸ List.mem_singleton_self _, queried, fun exact_ => ?_⟩, by decide +kernel⟩
  obtain ⟨pin, only⟩ := exact_.every "villages" queried
  rw [Catalogue.storedPins, pins] at only
  cases only

end Villages

end DataCollectionLab.Forms
