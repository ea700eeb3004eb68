import Mathlib.Data.List.Sort
import DataCollectionLab.Form.Values
import DataCollectionLab.Lib.Dict
import DataCollectionLab.Submissions.Status

/-!
The device's submission store and operation outbox. Answers are never stored materialised: every
change is an op with a counter of this device, and the op log is the durable state. A method of the
store is one transaction; `none` is a constraint of the database that refused it.
-/

namespace DataCollectionLab.Core

open Form

/-- `op_outbox.synced`: 0, 1 and 2. -/
inductive Synced where
  | pending | acknowledged | rejected
  deriving DecidableEq, Repr

/-- One operation, as a row of `op_outbox`. -/
structure SyncOp where
  opId : String
  submissionId : String
  formId : String
  formVersion : Nat
  kind : OpKind
  path : Option String := none
  /-- The text of the answer, by the JSON it parses to. -/
  valueJson : Option Json := none
  valueCiphertext : Option Bytes := none
  contentKeyId : Option String := none
  nonce : Option Bytes := none
  deviceId : String
  actorId : String
  counter : Nat
  wallClock : Timestamp := 0
  synced : Synced := .pending
  rejectReason : Option String := none
  /-- The case of the op's submission, read at push time and never stored on the row. -/
  caseId : Option String := none

namespace SyncOp

def isEncrypted (op : SyncOp) : Bool := op.valueCiphertext.isSome

/-- `(device_id, counter)`, unique in the outbox. -/
def slot (op : SyncOp) : String × Nat := (op.deviceId, op.counter)

def Clash (a b : SyncOp) : Prop := a.opId = b.opId ∨ a.slot = b.slot

instance (a b : SyncOp) : Decidable (a.Clash b) :=
  inferInstanceAs (Decidable (a.opId = b.opId ∨ a.slot = b.slot))

/-- `ORDER BY counter ASC, device_id ASC`. -/
def Le (a b : SyncOp) : Prop :=
  a.counter < b.counter ∨ (a.counter = b.counter ∧ a.deviceId ≤ b.deviceId)

instance : DecidableRel Le := fun a b =>
  inferInstanceAs (Decidable (a.counter < b.counter ∨ (a.counter = b.counter ∧ a.deviceId ≤ b.deviceId)))

def stored (op : SyncOp) : SubmissionOp where
  id := op.opId
  submissionId := op.submissionId
  opKind := op.kind
  path := op.path
  value := op.valueJson.getD .null
  valueCiphertext := op.valueCiphertext
  contentKeyId := op.contentKeyId
  nonce := op.nonce
  deviceId := op.deviceId
  actorId := some op.actorId
  counter := op.counter
  wallClock := op.wallClock
  serverSeq := 0

/-- The op as `insertRemoteOp` files it: an op of the server's is acknowledged from the start. -/
def acknowledged (op : SyncOp) : SyncOp :=
  { op with synced := .acknowledged, rejectReason := none, caseId := none }

end SyncOp

theorem SyncOp.none_clash : ([] : List SyncOp).Pairwise fun a b => ¬ a.Clash b := .nil

/-- `op_outbox`: no two rows share an id, and no two a place in the order. -/
structure OpOutbox where
  rows : List SyncOp := []
  unique : rows.Pairwise fun a b => ¬ a.Clash b := by exact SyncOp.none_clash

namespace OpOutbox

variable (outbox : OpOutbox)

def insert (op : SyncOp) : Option OpOutbox :=
  if free : ∀ row ∈ outbox.rows, ¬ row.Clash op then
    some ⟨outbox.rows ++ [op], by
      refine List.pairwise_append.mpr ⟨outbox.unique, List.pairwise_singleton _ _, ?_⟩
      intro row member new last
      obtain rfl := List.mem_singleton.mp last
      exact free row member⟩
  else none

def insertOrIgnore (op : SyncOp) : OpOutbox := (outbox.insert op).getD outbox

theorem insert_rows {outbox outbox' : OpOutbox} {op : SyncOp}
    (inserted : outbox.insert op = some outbox') : outbox'.rows = outbox.rows ++ [op] := by
  unfold OpOutbox.insert at inserted
  split at inserted
  · cases inserted
    rfl
  · cases inserted

theorem insertOrIgnore_rows (outbox : OpOutbox) (op : SyncOp) :
    (outbox.insertOrIgnore op).rows = outbox.rows ++ [op] ∨ outbox.insertOrIgnore op = outbox := by
  unfold OpOutbox.insertOrIgnore
  cases inserted : outbox.insert op with
  | none => exact Or.inr rfl
  | some outbox' => exact Or.inl (insert_rows inserted)

theorem eq_of_id (outbox : OpOutbox) {a b : SyncOp} (left : a ∈ outbox.rows)
    (right : b ∈ outbox.rows) (same : a.opId = b.opId) : a = b := by
  have symm : Std.Symm fun a b : SyncOp => ¬ a.Clash b :=
    ⟨fun a b apart clash => apart (clash.imp Eq.symm Eq.symm)⟩
  by_contra differ
  exact outbox.unique.forall left right differ (Or.inl same)

def update (change : SyncOp → SyncOp)
    (keeps : ∀ op, (change op).opId = op.opId ∧ (change op).slot = op.slot) : OpOutbox where
  rows := outbox.rows.map change
  unique := by
    refine List.pairwise_map.mpr (outbox.unique.imp ?_)
    intro a b apart clash
    unfold SyncOp.Clash at clash
    rw [(keeps a).1, (keeps b).1, (keeps a).2, (keeps b).2] at clash
    exact apart clash

/-- `opsForSubmission`. -/
def opsFor (submissionId : String) : List SyncOp :=
  (outbox.rows.filter (·.submissionId == submissionId)).insertionSort SyncOp.Le

end OpOutbox

/-- One row of the device's `submission`. -/
structure LocalSubmission where
  formId : String
  formVersion : Nat
  status : Status := .draft
  createdAt : Timestamp
  updatedAt : Timestamp
  caseId : Option String := none
  /-- What a reviewer said when they handed the work back, when, and who. -/
  returnedReason : Option String := none
  returnedAt : Option Timestamp := none
  returnedBy : Option String := none

structure SubmissionStore where
  deviceId : String
  actorId : String := "usr_local"
  /-- `device_state.counter`: never reset. -/
  counter : Nat := 0
  submissions : Dict LocalSubmission := ∅
  outbox : OpOutbox := {}
  pullCursor : Nat := 0

namespace SubmissionStore

variable (store : SubmissionStore)

def updateSubmission (id : String) (change : LocalSubmission → LocalSubmission) : SubmissionStore :=
  match store.submissions.lookup id with
  | some row => { store with submissions := store.submissions.insert id (change row) }
  | none => store

/-- `createDraft`, under the fresh id it drew. -/
def createDraft (id formId : String) (formVersion : Nat) (caseId : Option String) (now : Timestamp) :
    Option SubmissionStore :=
  if (store.submissions.lookup id).isSome then none
  else some { store with
    submissions := store.submissions.insert id
      { formId := formId, formVersion := formVersion, createdAt := now, updatedAt := now
        caseId := caseId } }

def caseIdFor (submissionId : String) : Option String :=
  (store.submissions.lookup submissionId).bind (·.caseId)

/-- `setSubmissionStatus`, for the two kinds of op that move the status. -/
def moveStatus (op : SyncOp) : SubmissionStore :=
  match op.kind with
  | .finalize => store.updateSubmission op.submissionId fun row =>
      { row with status := .finalized, updatedAt := op.wallClock }
  | .reopen => store.updateSubmission op.submissionId fun row =>
      { row with status := .draft, updatedAt := op.wallClock }
  | _ => store

/-- The op `appendOp` records. -/
def newOp (opId submissionId formId : String) (formVersion : Nat) (kind : OpKind)
    (path : Option String) (valueJson : Option Json) (now : Timestamp) : SyncOp where
  opId := opId
  submissionId := submissionId
  formId := formId
  formVersion := formVersion
  kind := kind
  path := path
  valueJson := valueJson
  deviceId := store.deviceId
  actorId := store.actorId
  counter := store.counter + 1
  wallClock := now

/-- `appendOp`, past the draw of its id. -/
def append (op : SyncOp) : Option SubmissionStore :=
  (store.outbox.insert op).map fun outbox =>
    (({ store with counter := store.counter + 1, outbox := outbox }.updateSubmission
      op.submissionId fun row => { row with updatedAt := op.wallClock }).moveStatus op)

def appendOp (opId submissionId formId : String) (formVersion : Nat) (kind : OpKind)
    (path : Option String) (valueJson : Option Json) (now : Timestamp) : Option SubmissionStore :=
  store.append (store.newOp opId submissionId formId formVersion kind path valueJson now)

/-- `opsFor`: a submission's log, in conflict order. -/
def opsFor (submissionId : String) : List SyncOp := store.outbox.opsFor submissionId

def insertSubmissionIfAbsent (op : SyncOp) : SubmissionStore :=
  if (store.submissions.lookup op.submissionId).isSome then store
  else { store with
    submissions := store.submissions.insert op.submissionId
      { formId := op.formId, formVersion := op.formVersion
        createdAt := op.wallClock, updatedAt := op.wallClock } }

def insertRemoteOp (op : SyncOp) : SubmissionStore :=
  { store with outbox := store.outbox.insertOrIgnore op.acknowledged }

/-- One round of the loop in `applyPullBatch`. The status moves even where the op was ignored. -/
def applyPulled (op : SyncOp) : SubmissionStore :=
  ((store.insertSubmissionIfAbsent op).insertRemoteOp op).moveStatus op

def applyPullBatch (ops : List SyncOp) (nextCursor : Nat) : SubmissionStore :=
  { ops.foldl applyPulled store with pullCursor := nextCursor }

end SubmissionStore

end DataCollectionLab.Core
