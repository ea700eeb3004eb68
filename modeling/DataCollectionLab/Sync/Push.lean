import Mathlib.Data.List.Sort
import DataCollectionLab.Lib.Lists
import DataCollectionLab.Sync.Store

/-!
`push`: one transaction that validates each op, stores the content keys the batch carries,
inserts the new ops, writes tombstones, folds the touched submissions and notes the devices.
A rejected op is named in the response; an error of the database is the whole call's.
-/

namespace DataCollectionLab.Sync

/-- The well-formed ops of a batch, one per id, and the verdicts reading it already gave. -/
structure Batch where
  ops : List SyncOp := []
  accepted : List String := []
  rejected : List RejectedOp := []

def readOp (batch : Batch) : RawOp → Batch
  | .malformed opId => { batch with rejected := batch.rejected ++ [⟨opId, .malformed⟩] }
  | .wellFormed op =>
    if batch.ops.any (·.opId == op.opId) then
      { batch with accepted := batch.accepted ++ [op.opId] }
    else { batch with ops := batch.ops ++ [op] }

def readBatch (raw : List RawOp) : Batch := raw.foldl readOp {}

def localActor : String := "usr_local"

/-- `_attribute`: who this op is filed under. -/
def attributeOp (op : SyncOp) (device : Device) (batchDeviceId : String) (actorId : Option String) :
    Except RejectReason (Option String) :=
  match actorId with
  | none => .ok op.actorId
  | some actor =>
    match (if op.deviceId = batchDeviceId then some actor else device.userId) with
    | none => .error .notAuthorized
    | some person =>
      if op.actorId = none ∨ op.actorId = some localActor ∨ op.actorId = some person then
        .ok (some person)
      else .error .notAuthorized

def resolveFormVersion (db : Db) (projectId formKey : String) (version : Nat) : Option String :=
  (db.formVersions.entries.find? fun entry =>
    entry.2.version == version && (db.forms.lookup entry.2.formId).any fun form =>
      form.projectId == projectId && form.formKey == formKey).map (·.1)

def environmentPreference : List EnvironmentKind := [.production, .staging, .development]

def resolveEnvironment (db : Db) (projectId : String) : Option String :=
  environmentPreference.findSome? fun kind =>
    (db.environments.find? fun e => e.projectId == projectId && e.kind == kind).map (·.id)

/-- One call of `push`: the session's policies, the database it finds, and its arguments. -/
structure Call where
  pol : Policies
  db : Db
  req : PushRequest

namespace Call

variable (c : Call)

def ops : List SyncOp := (readBatch c.req.ops).ops

def knownRows : List SubmissionOp :=
  c.db.ops.rows.filter fun r => c.pol.shows c.db r.submissionId &&
    (c.ops.any (·.opId == r.id) || c.ops.any (·.slot == r.slot))

def knownIds : List String := c.knownRows.map (·.id)

def knownCounters : List (String × Nat) := c.knownRows.map (·.slot)

def identify (op : SyncOp) : Except RejectReason (Device × Option String) :=
  match c.pol.device c.db op.deviceId with
  | none => .error .notAuthorized
  | some device =>
    if device.revokedAt.isSome then .error .notAuthorized
    else (attributeOp op device c.req.deviceId c.req.actorId).map (device, ·)

def refusalOn (submission : Submission) (device : Device) (formVersionId : String) :
    Option RejectReason :=
  if submission.projectId ≠ device.projectId then some .notAuthorized
  else if submission.status.closed then some .submissionClosed
  else if submission.formVersionId ≠ formVersionId then some .unknownFormVersion
  else none

def opening (op : SyncOp) (device : Device) (person : Option String)
    (environmentId formVersionId : String) : Submission where
  projectId := device.projectId
  environmentId := environmentId
  formVersionId := formVersionId
  caseId := op.caseId
  originDeviceId := op.deviceId
  createdBy := person
  status := .draft
  startedAt := op.wallClock

end Call

/-- The admission loop's variables. `submissions` of the source is what `pol` shows of `db`:
a row opened here is shown at once, because opening it read it back. -/
structure Admission where
  db : Db
  accepted : List String
  rejected : List RejectedOp
  admitted : List SyncOp := []
  /-- The loop's own `attributed`, which stays bound when the loop is over. -/
  attributed : Option String := none

namespace Admission

def refuse (st : Admission) (op : SyncOp) (reason : RejectReason) : Admission :=
  { st with rejected := st.rejected ++ [⟨some op.opId, reason⟩] }

def enrol (st : Admission) (op : SyncOp) : Admission :=
  { st with admitted := st.admitted ++ [op] }

/-- Past `_attribute`: the op joins a submission, opens one, or is refused. -/
def enter (pol : Policies) (st : Admission) (op : SyncOp) (device : Device)
    (person : Option String) : Except DbError Admission :=
  match resolveFormVersion st.db device.projectId op.formId op.formVersion with
  | none => .ok (st.refuse op .unknownFormVersion)
  | some formVersionId =>
    match pol.submission st.db op.submissionId with
    | some submission =>
      match Call.refusalOn submission device formVersionId with
      | some reason => .ok (st.refuse op reason)
      | none => .ok (st.enrol op)
    | none =>
      match resolveEnvironment st.db device.projectId with
      | none => .ok (st.refuse op .notAuthorized)
      | some environmentId =>
        let row := Call.opening op device person environmentId formVersionId
        match pol.insertSubmission st.db op.submissionId row with
        | .ok db => .ok ({ st with db := db }.enrol op)
        | .error (.rowSecurity _) => .ok (st.refuse op .notAssigned)
        | .error error => .error error

def step (c : Call) (st : Admission) (op : SyncOp) : Except DbError Admission :=
  if op.opId ∈ c.knownIds ∨ op.slot ∈ c.knownCounters then
    .ok { st with accepted := st.accepted ++ [op.opId] }
  else
    match c.identify op with
    | .error reason => .ok (st.refuse op reason)
    | .ok (device, person) => { st with attributed := person }.enter c.pol op device person

end Admission

def Call.admission (c : Call) : Except DbError Admission :=
  let batch := readBatch c.req.ops
  batch.ops.foldlM (Admission.step c)
    { db := c.db, accepted := batch.accepted, rejected := batch.rejected }

/-- The variables of `_admit_content_keys`: its answer, the owners so far, the rows to add. -/
structure KeyIntake where
  admitted : Dict String := ∅
  owners : List (String × String)
  added : List ContentKeyIn := []

namespace KeyIntake

def existing (pol : Policies) (db : Db) (keys : List ContentKeyIn) : List (String × ContentKey) :=
  (db.contentKeys.entries.map fun entry => (entry.1, entry.2)).filter fun entry =>
    keys.any (·.submissionId == entry.2.submissionId) && pol.shows db entry.2.submissionId

def active (db : Db) (projectId projectKeyId : String) : Bool :=
  (db.projectKeys.lookup projectKeyId).any fun key =>
    key.projectId == projectId && key.revokedAt.isNone

def resolves (pol : Policies) (db : Db) (owners : List (String × String)) (key : ContentKeyIn) :
    Bool :=
  match pol.submission db key.submissionId, pol.device db key.deviceId with
  | some submission, some device =>
    device.revokedAt.isNone && device.projectId == submission.projectId &&
      !owners.contains (key.submissionId, key.deviceId) &&
      key.wraps.all fun wrap => active db submission.projectId wrap.projectKeyId
  | _, _ => false

def step (pol : Policies) (db : Db) (stored : List (String × ContentKey)) (st : KeyIntake)
    (key : ContentKeyIn) : KeyIntake :=
  match stored.lookup key.contentKeyId with
  | some row => { st with admitted := st.admitted.insert key.contentKeyId row.submissionId }
  | none =>
    if resolves pol db st.owners key then
      { admitted := st.admitted.insert key.contentKeyId key.submissionId
        owners := st.owners ++ [(key.submissionId, key.deviceId)]
        added := st.added ++ [key] }
    else st

/-- `_admit_content_keys`, before the flush. -/
def run (pol : Policies) (db : Db) (keys : List ContentKeyIn) : KeyIntake :=
  let stored := existing pol db keys
  keys.foldl (step pol db stored)
    { owners := stored.map fun entry => (entry.2.submissionId, entry.2.deviceId) }

end KeyIntake

def insertKey (db : Db) (key : ContentKeyIn) : Except DbError Db :=
  if (db.contentKeys.lookup key.contentKeyId).isSome then
    .error (.uniqueViolation "submission_content_key_pkey")
  else if db.contentKeys.entries.any fun entry =>
      entry.2.submissionId == key.submissionId && entry.2.deviceId == key.deviceId then
    .error (.uniqueViolation "submission_content_key_submission_id_device_id_key")
  else if ¬ (key.wraps.map (·.projectKeyId)).Nodup then
    .error (.uniqueViolation "submission_wrapped_key_pkey")
  else .ok { db with
    contentKeys := db.contentKeys.insert key.contentKeyId ⟨key.submissionId, key.deviceId⟩
    wrappedKeys := db.wrappedKeys ++ key.wraps.map fun wrap =>
      ⟨key.contentKeyId, wrap.projectKeyId, key.submissionId, wrap.ephemeralPublic, wrap.nonce,
        wrap.wrappedKey⟩ }

/-- `key_submissions.get`, with what `_stored_content_keys` finds after the flush over what
`_admit_content_keys` answered. -/
def keySubmission (pol : Policies) (db : Db) (admitted : Dict String) (contentKeyId : String) :
    Option String :=
  match db.contentKeys.lookup contentKeyId with
  | some key =>
    if pol.shows db key.submissionId then some key.submissionId else admitted.lookup contentKeyId
  | none => admitted.lookup contentKeyId

/-- `_taken_nonces`: the envelopes the server already has, as far as shown. -/
def takenNonces (pol : Policies) (db : Db) : List (String × Bytes) :=
  (db.ops.rows.filter fun r => pol.shows db r.submissionId).filterMap (·.envelope)

/-- The row an op is stored as; the database draws `serverSeq` when it is inserted. -/
def SyncOp.row (op : SyncOp) (actorId : Option String) : SubmissionOp where
  id := op.opId
  submissionId := op.submissionId
  opKind := op.kind
  path := op.path
  value := match op.payload with
    | .plain value => value
    | .sealed .. => .null
  valueCiphertext := match op.payload with
    | .plain _ => none
    | .sealed ciphertext _ _ => some ciphertext
  contentKeyId := match op.payload with
    | .plain _ => none
    | .sealed _ contentKeyId _ => some contentKeyId
  nonce := match op.payload with
    | .plain _ => none
    | .sealed _ _ nonce => some nonce
  deviceId := op.deviceId
  actorId := actorId
  counter := op.counter
  wallClock := op.wallClock
  serverSeq := 0

structure Sift where
  accepted : List String
  rejected : List RejectedOp
  taken : List (String × Bytes)
  counters : List (String × Nat)
  toInsert : List SubmissionOp := []

namespace Sift

def refuse (st : Sift) (op : SyncOp) (reason : RejectReason) : Sift :=
  { st with rejected := st.rejected ++ [⟨some op.opId, reason⟩] }

/-- Past the crypto gate. A second op of the batch that claims a taken counter is accepted
as a replay of the first. -/
def keep (attributed : Option String) (st : Sift) (op : SyncOp) : Sift :=
  if op.slot ∈ st.counters then { st with accepted := st.accepted ++ [op.opId] }
  else { st with
    accepted := st.accepted ++ [op.opId]
    counters := st.counters ++ [op.slot]
    -- `attributed` is the admission loop's variable, as that loop left it.
    toInsert := st.toInsert ++ [op.row attributed] }

def step (keys : String → Option String) (attributed : Option String) (st : Sift) (op : SyncOp) :
    Sift :=
  match op.payload with
  | .plain _ => st.keep attributed op
  | .sealed _ contentKeyId nonce =>
    if keys contentKeyId ≠ some op.submissionId then st.refuse op .unknownContentKey
    else if (contentKeyId, nonce) ∈ st.taken then st.refuse op .nonceReused
    else { st with taken := st.taken ++ [(contentKeyId, nonce)] }.keep attributed op

end Sift

/-- The log and its sequence after an insert, and the rows the database refused. -/
structure Inserted where
  log : OpLog
  nextSeq : Nat
  refused : List (String × OpConstraint) := []

namespace OpLog

def flush (log : OpLog) (seq : Nat) : List SubmissionOp → Except Nat Inserted
  | [] => .ok { log := log, nextSeq := seq }
  | row :: rest =>
    match log.insert { row with serverSeq := seq } with
    | .error _ => .error (seq + 1)
    | .ok log => flush log (seq + 1) rest

def insertEach (log : OpLog) (seq : Nat) : List SubmissionOp → Inserted
  | [] => { log := log, nextSeq := seq }
  | row :: rest =>
    match log.insert { row with serverSeq := seq } with
    | .error constraint =>
      let inserted := insertEach log (seq + 1) rest
      { inserted with refused := (row.id, constraint) :: inserted.refused }
    | .ok log => insertEach log (seq + 1) rest

def insertOps (log : OpLog) (seq : Nat) (rows : List SubmissionOp) : Inserted :=
  match log.flush seq rows with
  | .ok inserted => inserted
  | .error seq => log.insertEach seq rows

end OpLog

/-- `_integrity_reason`: `none` means the op is already stored, which is acceptance. -/
def integrityReason : OpConstraint → Option RejectReason
  | .nonce => some .nonceReused
  | .pkey | .counter => none

def settleRefused (verdicts : List String × List RejectedOp) (refused : String × OpConstraint) :
    List String × List RejectedOp :=
  match integrityReason refused.2 with
  | none => verdicts
  | some reason => (verdicts.1.erase refused.1, verdicts.2 ++ [⟨some refused.1, reason⟩])

/-- The tombstone of a stored `repeat_delete`. -/
def tombstoneOf (db : Db) (row : SubmissionOp) : Option Tombstone :=
  match row.opKind, db.devices.lookup row.deviceId with
  | .repeatDelete, some device => some
    { projectId := device.projectId
      subjectType := "repeat_instance"
      subjectId := row.submissionId ++ ":" ++ row.path.getD "None"
      submissionId := row.submissionId
      path := row.path
      deviceId := row.deviceId
      counter := row.counter
      serverSeq := 0 }
  | _, _ => none

def addTombstones (db : Db) (stones : List Tombstone) : Db :=
  { db with
    tombstones := db.tombstones ++
      stones.zipIdx.map fun entry => { entry.1 with serverSeq := db.nextSeq + entry.2 }
    nextSeq := db.nextSeq + stones.length }

/-- `media_reference_id`: the media id in an op value, or `none` if it is not a reference. -/
def mediaReferenceId : Json → Option String
  | .obj fields =>
    if fields.all fun f => ["id", "filename", "hash", "size"].contains f.1 then
      match fields.lookup "id" with
      | some (.str id) =>
        if id ≠ "" ∧ id.length ≤ 64 ∧
            fields.any (fun f => ["filename", "hash", "size"].contains f.1) then some id
        else none
      | _ => none
    else none
  | _ => none

/-- The references of the ops stored: `(media_id, submission_id, op_id, path)`. -/
def mediaReferences (rows : List SubmissionOp) : List (String × String × String × String) :=
  rows.filterMap fun row =>
    if row.opKind = .set ∧ row.valueCiphertext = none then
      (mediaReferenceId row.value).map fun id => (id, row.submissionId, row.id, row.path.getD "")
    else none

/-- `old or new`, for a nullable text column. -/
def orElseText (old : Option String) (new : String) : Option String :=
  match old with
  | some text => if text = "" then some new else some text
  | none => some new

def registerReference (pol : Policies) (db : Db)
    (reference : String × String × String × String) : Except DbError Db :=
  let (mediaId, submissionId, opId, path) := reference
  match db.media.lookup mediaId with
  | none => .ok { db with media := db.media.insert mediaId ⟨submissionId, some opId, some path⟩ }
  | some row =>
    if pol.shows db row.submissionId then
      if row.submissionId = submissionId then
        let filled : Media :=
          ⟨row.submissionId, orElseText row.opId opId, orElseText row.fieldPath path⟩
        .ok { db with media := db.media.insert mediaId filled }
      else .ok db
    else .error (.uniqueViolation "media_pkey")

/-- `register_pending_references`: the first reference to each media id counts. -/
def registerPendingReferences (pol : Policies) (db : Db)
    (references : List (String × String × String × String)) : Except DbError Db :=
  (Lib.firstBy (·.1) references).foldlM (registerReference pol) db

/-! ### Folding the touched submissions -/

/-- `(counter, device_id)`, the order of conflict resolution. -/
def OpLe (a b : SubmissionOp) : Prop :=
  a.counter < b.counter ∨ (a.counter = b.counter ∧ a.deviceId ≤ b.deviceId)

instance : DecidableRel OpLe := fun a b =>
  inferInstanceAs (Decidable (a.counter < b.counter ∨ (a.counter = b.counter ∧ a.deviceId ≤ b.deviceId)))

def orderedLog (rows : List SubmissionOp) (submissionId : String) : List SubmissionOp :=
  (rows.filter (·.submissionId == submissionId)).insertionSort OpLe

def applyFolded (submission : Submission) (folded : Fold) : Submission :=
  match eventForFolded folded.status with
  | none => submission
  | some event =>
    match nextStatus submission.status event with
    | .error _ => submission
    | .ok status => { submission with status := status, finalizedAt := folded.finalizedAt }

/-- `_fold_submission`. The ORM writes the submission only when a column changed. -/
def foldSubmission (pol : Policies) (db : Db) (id : String) (submission : Submission) :
    Except DbError Db :=
  let folded := foldOps (orderedLog db.ops.rows id)
  let moved := applyFolded submission folded
  let states := db.states.insert id ⟨folded.data, folded.opHighWater⟩
  if moved = submission then .ok { db with states := states }
  else if pol.writesSubmission submission.scope then
    .ok { db with submissions := db.submissions.insert id moved, states := states }
  else .error (.rowSecurity "submission")

/-- The fold and the outbox event of one touched submission. Whatever the batch touched it
was shown, so the first branch is taken every time. -/
def foldTouched (pol : Policies) (pushedBy : String) (rows : List SubmissionOp) (db : Db)
    (id : String) : Except DbError Db :=
  match pol.submission db id with
  | some submission => do
    let db ← foldSubmission pol db id submission
    let event : OutboxEvent :=
      { projectId := submission.projectId
        topic := "sync.submission.ops_accepted"
        submissionId := id
        opIds := (rows.filter (·.submissionId == id)).map (·.id)
        pushedBy := pushedBy }
    return { db with outbox := db.outbox ++ [event] }
  | none => .ok db

def touched (rows : List SubmissionOp) : List String :=
  (Lib.firstBy (·.submissionId) rows).map (·.submissionId)

def updateDevice (pol : Policies) (change : Device → Device) (db : Db) (id : String) :
    Except DbError Db :=
  match pol.device db id with
  | none => .ok db
  | some device =>
    if pol.writesDevice device.projectId device.userId then
      .ok { db with devices := db.devices.insert id (change device) }
    else .error (.rowSecurity "device")

def notePending (pol : Policies) (req : PushRequest) (db : Db) : Except DbError Db :=
  match req.pendingOps with
  | none => .ok db
  | some pending =>
    updateDevice pol
      (fun device => { device with reportedPendingOps := some pending, reportedAt := some req.now })
      db req.deviceId

def topCounter (rows : List SubmissionOp) (deviceId : String) : Nat :=
  ((rows.filter (·.deviceId == deviceId)).map (·.counter)).foldl max 0

def noteCounter (pol : Policies) (now : Timestamp) (rows : List SubmissionOp) (db : Db)
    (deviceId : String) : Except DbError Db :=
  updateDevice pol
    (fun device => { device with
      lastCounter := max device.lastCounter (topCounter rows deviceId)
      lastSyncAt := some now })
    db deviceId

def serverCursor (pol : Policies) (db : Db) : Nat :=
  max (((db.ops.rows.filter fun r => pol.shows db r.submissionId).map (·.serverSeq)).foldl max 0)
    (((db.tombstones.filter fun t => pol.seesProject t.projectId).map (·.serverSeq)).foldl max 0)

/-- What the two loops settled: the database with its new submissions and keys, the rows to
insert and the verdicts so far. -/
structure Intake where
  db : Db
  sift : Sift

def Call.intake (c : Call) : Except DbError Intake := do
  let admission ← c.admission
  let keys := KeyIntake.run c.pol admission.db c.req.keys
  let db ← keys.added.foldlM insertKey admission.db
  let sift := admission.admitted.foldl
    (Sift.step (keySubmission c.pol db keys.admitted) admission.attributed)
    { accepted := admission.accepted
      rejected := admission.rejected
      taken := takenNonces c.pol db
      counters := c.knownCounters }
  return { db := db, sift := sift }

def Call.store (c : Call) (db : Db) (rows : List SubmissionOp) : Except DbError Db := do
  let db := addTombstones db (rows.filterMap (tombstoneOf db))
  let db ← registerPendingReferences c.pol db (mediaReferences rows)
  let db ← (touched rows).foldlM (foldTouched c.pol c.req.deviceId rows) db
  let db ← notePending c.pol c.req db
  ((Lib.firstBy (·.deviceId) rows).map (·.deviceId)).foldlM
    (noteCounter c.pol c.req.now rows) db

/-- The rows `_insert_ops` did not refuse. -/
def kept (rows : List SubmissionOp) (refused : List (String × OpConstraint)) :
    List SubmissionOp :=
  rows.filter fun row => !(refused.map (·.1)).contains row.id

/-- `push`. An error is the transaction's: nothing of the call remains. -/
def push (pol : Policies) (db : Db) (req : PushRequest) : Except DbError (PushResponse × Db) := do
  let c : Call := ⟨pol, db, req⟩
  let intake ← c.intake
  let rows := intake.sift.toInsert
  if rows.all fun row => pol.shows intake.db row.submissionId then
    let inserted := intake.db.ops.insertOps intake.db.nextSeq rows
    let verdicts := inserted.refused.foldl settleRefused
      (intake.sift.accepted, intake.sift.rejected)
    let db ← c.store { intake.db with ops := inserted.log, nextSeq := inserted.nextSeq }
      (kept rows inserted.refused)
    return ({ accepted := verdicts.1, rejected := verdicts.2, serverCursor := serverCursor pol db },
      db)
  else throw (.rowSecurity "submission_op")

end DataCollectionLab.Sync
